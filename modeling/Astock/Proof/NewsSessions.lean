import Astock.Spec.NewsSession

/-!
# News never leaks backward

* `searchTradingDay_spec`: the loop finds the next trading day.
* `sessionAt_spec`: the target of a local time is **the first trading day that closes after it**.
* `classify_cases`: what an accepted classification consists of.
* `news_never_leaks`: the clocks of an item bound its effective time, which decides its target.
-/

namespace Astock

variable {rules : SessionRules} {format : ℤ → String} {input : NewsSessionInput}
  {session : EffectiveNewsSession} {date d t : ℤ}

namespace SessionRules

theorem searchTradingDay_spec {n : ℕ} (h : rules.searchTradingDay n date = some d) :
    date < d ∧ rules.isTradingDay d ∧ ∀ e, date < e → e < d → ¬ rules.isTradingDay e := by
  induction n generalizing date with
  | zero => cases h
  | succ n ih =>
    rw [searchTradingDay] at h
    split at h
    next hopen =>
      obtain rfl := Option.some.inj h
      exact ⟨by omega, hopen, fun e h1 h2 => absurd h2 (by omega)⟩
    next hclosed =>
      obtain ⟨hlt, hopen, hnone⟩ := ih h
      refine ⟨by omega, hopen, fun e h1 h2 => ?_⟩
      rcases eq_or_lt_of_le (show date + 1 ≤ e by omega) with rfl | h3
      · exact hclosed
      · exact hnone e h3 h2

/-- The loop ends when there is a later trading day among the dates. -/
theorem nextTradingDay_isSome (hopen : rules.isTradingDay d) (hd : date < d) (hmax : d ≤ maxDate) :
    (rules.nextTradingDay date).isSome := by
  have hsearch : ∀ (n : ℕ) (date : ℤ), date < d → d ≤ date + n →
      (rules.searchTradingDay n date).isSome := by
    intro n
    induction n with
    | zero => intro date h1 h2; omega
    | succ n ih =>
      intro date h1 h2
      rw [searchTradingDay]
      split
      · rfl
      next hclosed =>
        refine ih (date + 1) ?_ (by push_cast at h2; omega)
        rcases eq_or_lt_of_le (show date + 1 ≤ d by omega) with rfl | h3
        · exact absurd hopen hclosed
        · exact h3
  exact hsearch _ date hd (by omega)

/-- The time stamp at which a day closes. -/
def closing (rules : SessionRules) (date : ℤ) : ℤ :=
  chinaStamp date rules.auction.closeCallAuction.stop

/-- The first trading day that closes after a time stamp. -/
structure FirstClosing (rules : SessionRules) (t target : ℤ) : Prop where
  trading : rules.isTradingDay target
  closes : t < rules.closing target
  first : ∀ d, rules.isTradingDay d → t < rules.closing d → target ≤ d

end SessionRules

open SessionRules

/-- A time stamp is its local date and its local time. -/
theorem chinaStamp_clock (t : ℤ) : chinaStamp (chinaDate t) (chinaClock t) = t := by
  unfold chinaStamp chinaDate chinaClock
  simp only
  have h := Int.mul_ediv_add_emod (t + chinaOffset) 86400
  have hpos := Int.emod_nonneg (t + chinaOffset) (show (86400 : ℤ) ≠ 0 by decide)
  omega

/-- **The target of a local time** is the first trading day that closes after it. -/
theorem sessionAt_spec {target : ℤ} {role : EffectiveSessionRole} {why : String}
    (h : sessionAt rules (chinaDate t) (chinaClock t) = .ok (target, role, why)) :
    chinaDate t ≤ target ∧ rules.FirstClosing t target := by
  have ht := chinaStamp_clock t
  have hclock := (chinaClock t).isLt
  have hclose := rules.auction.closeCallAuction.stop.isLt
  unfold chinaStamp at ht
  -- no day before the local one closes after `t`
  have hpast : ∀ d, t < rules.closing d → chinaDate t ≤ d := by
    intro d hd
    unfold closing chinaStamp at hd
    omega
  have hnext : ∀ next, rules.nextTradingDay (chinaDate t) = some next →
      (rules.isTradingDay (chinaDate t) → rules.closing (chinaDate t) ≤ t) →
      chinaDate t ≤ next ∧ rules.FirstClosing t next := by
    intro next hnext htoday
    obtain ⟨hlt, hopen, hnone⟩ := searchTradingDay_spec hnext
    refine ⟨hlt.le, hopen, ?_, fun d hd hdt => ?_⟩
    · unfold closing chinaStamp
      omega
    · by_contra hsoon
      rcases eq_or_lt_of_le (hpast d hdt) with rfl | hlater
      · exact absurd (htoday hd) (not_le.2 hdt)
      · exact hnone d hlater (not_le.1 hsoon) hd
  have hsame : rules.isTradingDay (chinaDate t) →
      ¬ rules.auction.closeCallAuction.stop ≤ chinaClock t →
      chinaDate t ≤ chinaDate t ∧ rules.FirstClosing t (chinaDate t) := by
    intro hopen hbefore
    refine ⟨le_rfl, hopen, ?_, fun d _ hdt => hpast d hdt⟩
    have hlt := Fin.lt_def.1 (not_le.1 hbefore)
    unfold closing chinaStamp
    omega
  unfold sessionAt at h
  split at h
  next hclosed =>
    split at h
    next next hn =>
      obtain ⟨rfl, -⟩ := Prod.mk.inj (Except.ok.inj h)
      exact hnext next hn fun hopen => by simp [hopen] at hclosed
    next => cases h
  next hopen =>
    split at h
    next hafter =>
      split at h
      next next hn =>
        obtain ⟨rfl, -⟩ := Prod.mk.inj (Except.ok.inj h)
        refine hnext next hn fun _ => ?_
        have hle := Fin.le_def.1 hafter
        unfold closing chinaStamp
        omega
      next => cases h
    next hbefore =>
      have hopen : rules.isTradingDay (chinaDate t) := by simpa using hopen
      split at h
      · obtain ⟨rfl, -⟩ := Prod.mk.inj (Except.ok.inj h)
        exact hsame hopen hbefore
      · obtain ⟨rfl, -⟩ := Prod.mk.inj (Except.ok.inj h)
        exact hsame hopen hbefore

theorem chinaTime_ok {p : ℤ × TimeOfDay} (h : chinaTime t = .ok p) : p = (chinaDate t, chinaClock t) := by
  unfold chinaTime at h
  split at h
  · cases h
  · split at h
    · cases h
    · exact (Except.ok.inj h).symm

/-- **An accepted classification**: a publication time, and the session of the effective time. -/
theorem classify_cases (h : classifyNewsSession format rules input = .ok session) :
    ∃ published, publishedAt input = .ok published ∧
      session.effectiveAtUtc = max published.1 input.observedAt ∧
      ∃ role why, sessionAt rules (chinaDate session.effectiveAtUtc)
        (chinaClock session.effectiveAtUtc) = .ok (session.targetTradingDate, role, why) := by
  unfold classifyNewsSession at h
  cases hp : publishedAt input with
  | error e => rw [hp] at h; cases h
  | ok published =>
    rw [hp] at h
    cases hc : chinaTime (max published.1 input.observedAt) with
    | error e => simp only [bind, Except.bind, hc] at h; cases h
    | ok p =>
      obtain rfl := chinaTime_ok hc
      simp only [bind, Except.bind, hc] at h
      cases hs : sessionAt rules (chinaDate (max published.1 input.observedAt))
          (chinaClock (max published.1 input.observedAt)) with
      | error e => simp only [hs] at h; cases h
      | ok target =>
        simp only [hs] at h
        obtain rfl := Except.ok.inj h
        exact ⟨published, rfl, rfl, target.2.1, target.2.2, hs⟩

theorem firstSeen_le_observedAt (input : NewsSessionInput) :
    input.firstSeenTimeUtc ≤ input.observedAt := le_max_right _ _

theorem revision_le_observedAt {r : ℤ} (h : r ∈ input.revisionTimeUtc) : r ≤ input.observedAt := by
  unfold NewsSessionInput.observedAt
  rw [Option.mem_def.1 h]
  exact le_max_left _ _

/-- The publication time that counts, by precision. -/
theorem publishedAt_spec {published : ℤ × Bool × String} (h : publishedAt input = .ok published) {p : ℤ}
    (hp : p ∈ input.publishTimeUtc) :
    (input.publicationPrecision = .exactTime → published.1 = p) ∧
    (input.publicationPrecision = .dateOnly → published.1 = chinaStamp (chinaDate p) dateOnlyTime) := by
  rw [Option.mem_def] at hp
  unfold publishedAt at h
  constructor
  · intro hexact
    simp only [hexact, hp, Option.getD_some] at h
    rw [← Except.ok.inj h]
  · intro hdate
    simp only [hdate, hp, Option.getD_some] at h
    cases hc : chinaTime p with
    | error e => rw [hc] at h; cases h
    | ok local' =>
      obtain rfl := chinaTime_ok hc
      rw [hc] at h
      simp only [bind, Except.bind, atChinaTime] at h
      split at h
      next heq =>
        split at heq <;> cases heq
        cases h
      next stamp heq =>
        split at heq
        · cases heq
        · rw [← Except.ok.inj h, ← Except.ok.inj heq]

/-- The clocks of an item bound its effective time, and the effective time decides the session. -/
structure NeverLeaks (rules : SessionRules) (input : NewsSessionInput)
    (session : EffectiveNewsSession) : Prop where
  firstSeen : input.firstSeenTimeUtc ≤ session.effectiveAtUtc
  revision : ∀ r ∈ input.revisionTimeUtc, r ≤ session.effectiveAtUtc
  exactTime : input.publicationPrecision = .exactTime →
    ∀ p ∈ input.publishTimeUtc, p ≤ session.effectiveAtUtc
  dateOnly : input.publicationPrecision = .dateOnly →
    ∀ p ∈ input.publishTimeUtc, chinaStamp (chinaDate p) dateOnlyTime ≤ session.effectiveAtUtc
  notBefore : chinaDate session.effectiveAtUtc ≤ session.targetTradingDate
  target : rules.FirstClosing session.effectiveAtUtc session.targetTradingDate

theorem neverLeaks_of_ok (h : classifyNewsSession format rules input = .ok session) :
    NeverLeaks rules input session := by
  obtain ⟨published, hpublished, heffective, role, why, hsession⟩ := classify_cases h
  obtain ⟨hdate, hfirst⟩ := sessionAt_spec hsession
  have hobserved : input.observedAt ≤ session.effectiveAtUtc := heffective ▸ le_max_right _ _
  have hpublish : published.1 ≤ session.effectiveAtUtc := heffective ▸ le_max_left _ _
  exact {
    firstSeen := (firstSeen_le_observedAt input).trans hobserved
    revision := fun r hr => (revision_le_observedAt hr).trans hobserved
    exactTime := fun hexact p hp => ((publishedAt_spec hpublished hp).1 hexact).symm.le.trans hpublish
    dateOnly := fun hdateOnly p hp =>
      ((publishedAt_spec hpublished hp).2 hdateOnly).symm.le.trans hpublish
    notBefore := hdate
    target := hfirst }

/-- **News never leaks backward**, whenever the event itself took place; and what becomes usable
later is never mapped to an earlier session. -/
theorem news_never_leaks (h : classifyNewsSession format rules input = .ok session) :
    NeverLeaks rules input session ∧
    (∀ event, classifyNewsSession format rules { input with eventTimeUtc := event } = .ok session) ∧
    ∀ input' session', classifyNewsSession format rules input' = .ok session' →
      session.effectiveAtUtc ≤ session'.effectiveAtUtc →
      session.targetTradingDate ≤ session'.targetTradingDate := by
  have hleaks := neverLeaks_of_ok h
  refine ⟨hleaks, fun _ => h, fun input' session' h' hle => ?_⟩
  have hlater := (neverLeaks_of_ok h').target
  exact hleaks.target.first _ hlater.trading (hle.trans_lt hlater.closes)

/-- An item of Friday 2026-08-21, 15:00, belongs to Monday. -/
def atFridayClose : NewsSessionInput where
  publishTimeUtc := some 1787295600
  firstSeenTimeUtc := 1787295600
  revisionTimeUtc := some 1787295600
  publicationPrecision := .exactTime

theorem news_never_leaks_friday : ∃ session,
    classifyNewsSession (fun _ => "") exchangeRules atFridayClose = .ok session ∧
    NeverLeaks exchangeRules atFridayClose session ∧ session.targetTradingDate = 20689 := by
  have hrun : classifyNewsSession (fun _ => "") exchangeRules atFridayClose = .ok _ := rfl
  exact ⟨_, hrun, (news_never_leaks hrun).1, rfl⟩

/-- A date with a clock: published at 18:00 of Friday by a clock that counts for its date only, seen
at 16:00. -/
def datedLater : NewsSessionInput where
  publishTimeUtc := some 1787306400
  firstSeenTimeUtc := 1787299200
  revisionTimeUtc := none
  publicationPrecision := .dateOnly

/-- The time of a publication of which only the date counts can be after its effective time. -/
theorem dated_publication_later : ¬ ∀ (format : ℤ → String) rules input session,
    classifyNewsSession format rules input = .ok session →
    ∀ p ∈ input.publishTimeUtc, p ≤ session.effectiveAtUtc := by
  intro h
  have hle := h (fun _ => "") exchangeRules datedLater _ rfl 1787306400 rfl
  exact absurd hle (by decide)

end Astock
