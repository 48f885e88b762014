import Astock.Proof.Circuits

/-!
# Outages

A report does not say which request it belongs to, so each report that comes in counts,
also that of a request from before the outage.

* `watchedHub`: the hub with a record of when each circuit opened and what it let through;
  it runs as the hub does (`watchedHub_plain`).
* `single_run`: **until an open circuit closes, at most one request is in flight that it
  let through since it opened**, in every run.
* `punctual_decided`: in a run in which the requests from before an outage come to no
  decision during it, and none is about to be made when it begins, **only the probe decides
  and an open circuit is skipped**.
* `late_decided`: an answer from before the outage closes the circuit at once.
-/

namespace Astock

open Flow

variable {Bar Point α β : Type}

/-! ## What the circuits let through -/

/-- For each circuit, how often it has opened. -/
abbrev Openings := String → ℕ

/-- What a call in flight was let through by and has not reported on: for each circuit, how
often this had opened by then. -/
abbrev Admissions := String → Option ℕ

/-- The record of an operation. -/
def watchAdmissions (answer : Answer Bar Point) (s : Inner) (t : Flow Bar Point Unit)
    (openings : Openings) (admitted : Admissions) : Openings × Admissions :=
  match t with
  | .allow _ name _ =>
    if (s.breakers.allowRequest s.now name).1 then
      (openings, Function.update admitted name (some (openings name)))
    else
      (openings, admitted)
  | .report name r _ =>
    (if s.breakers.state name ≠ .open ∧ (r.apply name s.now s.breakers).state name = .open then
        Function.update openings name (openings name + 1)
      else
        openings,
      Function.update admitted name none)
  | .kline name _ =>
    -- the request ends without a report
    (openings, if Unsupported answer.kline then Function.update admitted name none else admitted)
  | .quote name _ =>
    (openings, if Unsupported answer.quote then Function.update admitted name none else admitted)
  | _ => (openings, admitted)

/-- A call with what it was let through by. -/
abbrev Request (Bar Point : Type) := Flow Bar Point Unit × Admissions

def watchedHub (filterValidBars : List Bar → List Bar) (chain : List String) :
    Pool.System (Inner × Openings) (Request Bar Point) ℕ (Call Bar) (Answer Bar Point) :=
  Pool.watched (hub filterValidBars chain) watchAdmissions fun _ => none

def idleWatched (config : BreakerConfig) (available : List (String × Bool)) (now : ℕ) :
    Pool (Inner × Openings) (Request Bar Point) where
  shared := (.new config available now, fun _ => 0)
  threads := []

/-- **The record changes nothing.** -/
theorem watchedHub_plain (filterValidBars : List Bar → List Bar) (chain : List String)
    (config : BreakerConfig) (available : List (String × Bool)) (start : ℕ)
    (moves : List (Pool.Move ℕ (Call Bar) (Answer Bar Point))) :
    (Run.run (Pool.next (watchedHub filterValidBars chain)) (idleWatched config available start)
      moves).plain =
      Run.run (Pool.next (hub filterValidBars chain)) (idleHub config available start) moves :=
  Pool.run_watched moves _

/-! ## What is said of an outage -/

/-- The circuit is open, and its cooldown has not elapsed. -/
def Circuit.OpenWithin (now : ℕ) (c : Circuit) : Prop := c.state = .open ∧ c.elapsed now < c.cooldown

instance (now : ℕ) (c : Circuit) : Decidable (c.OpenWithin now) :=
  inferInstanceAs (Decidable (_ ∧ _))

/-- The provider's circuit is in an outage. -/
def Inner.Out (s : Inner) (name : String) : Prop := (s.breakers.circuits name).OpenWithin s.now

instance (s : Inner) (name : String) : Decidable (s.Out name) :=
  inferInstanceAs (Decidable (Circuit.OpenWithin _ _))

/-- The provider that the chain of the call asks next. -/
def Flow.asks : Flow Bar Point α → Option String
  | .kline name _ | .quote name _ => some name
  | _ => none

/-- The provider that `fetch_base_kline` or `fetch_quote` calls next, within the chain or not. -/
def Flow.calls : Flow Bar Point α → Option String
  | .kline name _ | .quote name _ => some name
  | .supplement _ => some "eastmoney"
  | .shareList _ => some "tdx"
  | _ => none

/-- How many requests are in flight that the circuit let through since it last opened. -/
def inFlight (p : Pool (Inner × Openings) (Request Bar Point)) (name : String) : ℕ :=
  p.threads.countP fun t => t.2 name = some (p.shared.2 name)

/-- Until an open circuit closes, at most one request is in flight that it let through since
it opened. -/
def Single (p : Pool (Inner × Openings) (Request Bar Point)) : Prop :=
  ∀ name, p.shared.1.breakers.state name ≠ .closed → inFlight p name ≤ 1

/-- A circuit that is not closed becomes closed, or changes its cooldown, only by the report of
a request that it let through since it opened: its probe. -/
def Decided (filterValidBars : List Bar → List Bar) (chain : List String)
    (p : Pool (Inner × Openings) (Request Bar Point))
    (m : Pool.Move ℕ (Call Bar) (Answer Bar Point)) : Prop :=
  ∀ name,
    let c := p.shared.1.breakers.circuits name
    let c' := (Pool.next (watchedHub filterValidBars chain) p m).shared.1.breakers.circuits name
    c.state ≠ .closed → (c'.state = .closed ∨ c'.cooldown ≠ c.cooldown) →
      ∃ i x t r next, m = .step i x ∧ p.threads[i]? = some t ∧ t.1 = .report name r next ∧
        t.2 name = some (p.shared.2 name)

/-- No provider is called while its circuit is open within its cooldown. -/
def Skips (p : Pool (Inner × Openings) (Request Bar Point))
    (m : Pool.Move ℕ (Call Bar) (Answer Bar Point)) : Prop :=
  Pool.Guarded (fun _ s t => ∀ name ∈ t.1.calls, ¬ s.1.Out name) p m

/-! ## When the hub keeps to it -/

/-- The report is from the probe, or comes to a circuit that it does not decide about: a success
to a closed one, a failure to one that is not half open. -/
def InTime (s : Inner) (openings : Openings) (admitted : Admissions) (name : String) :
    Report → Prop
  | .success => s.breakers.state name ≠ .closed → admitted name = some (openings name)
  | .failure _ => s.breakers.state name = .halfOpen → admitted name = some (openings name)
  | .trip => True

instance (s : Inner) (openings : Openings) (admitted : Admissions) (name : String) :
    ∀ r : Report, Decidable (InTime s openings admitted name r)
  | .success => inferInstanceAs (Decidable (_ → _))
  | .failure _ => inferInstanceAs (Decidable (_ → _))
  | .trip => isTrue trivial

/-- The step reports in time, starts no outage of a provider that another call is about to ask,
and asks no provider outside the chain during its outage. -/
def PunctualStep (s : Inner) (openings : Openings) (others : List (Request Bar Point))
    (admitted : Admissions) : Flow Bar Point Unit → Prop
  | .report name r _ => InTime s openings admitted name r ∧
    (((r.apply name s.now s.breakers).circuits name).OpenWithin s.now →
      ∀ u ∈ others, u.1.asks ≠ some name)
  | .supplement _ => ¬ s.Out "eastmoney"
  | .shareList _ => ¬ s.Out "tdx"
  | _ => True

instance (s : Inner) (openings : Openings) (others : List (Request Bar Point))
    (admitted : Admissions) :
    ∀ t : Flow Bar Point Unit, Decidable (PunctualStep s openings others admitted t)
  | .report _ _ _ => inferInstanceAs (Decidable (_ ∧ _))
  | .supplement _ | .shareList _ => inferInstanceAs (Decidable (¬ _))
  | .done _ | .allow _ _ _ | .acquire _ _ | .release _ _ | .kline _ _ | .quote _ _ | .enrich _ _
  | .fundFlow _ | .breadth _ _ | .lastGood _ | .knownName _ => isTrue trivial

def Punctual (p : Pool (Inner × Openings) (Request Bar Point)) :
    Pool.Move ℕ (Call Bar) (Answer Bar Point) → Prop
  | .step i _ => ∀ t ∈ p.threads[i]?,
    PunctualStep p.shared.1 p.shared.2 (p.threads.eraseIdx i) t.2 t.1
  | _ => True

instance (p : Pool (Inner × Openings) (Request Bar Point)) :
    ∀ m : Pool.Move ℕ (Call Bar) (Answer Bar Point), Decidable (Punctual p m)
  | .env _ | .start _ => isTrue trivial
  | .step i _ => inferInstanceAs (Decidable (∀ t ∈ p.threads[i]?, _))

/-! ## At most one request -/

/-- What an operation does to one circuit, how often it has opened, and what the call holds from
it. -/
inductive Admission (before after : CircuitState) (n n' : ℕ) (held held' : Option ℕ) : Prop
  | quiet : after = before ∨ after = .closed → n' = n → held' = held ∨ held' = none →
    Admission before after n n' held held'
  | admitted : after = .closed → n' = n → held' = some n → Admission before after n n' held held'
  | probe : before = .open → after = .halfOpen → n' = n → held' = some n →
    Admission before after n n' held held'
  | opened : after = .open → n' = n + 1 → held' = none → Admission before after n n' held held'

/-- A check lets no request through, finds the circuit closed, or makes its probe. -/
theorem Circuit.allowRequest_cases (c : Circuit) (now : ℕ) :
    (c.allowRequest now).1 = false ∧ (c.allowRequest now).2 = c ∨
      (c.allowRequest now).1 = true ∧ c.state = .closed ∧ (c.allowRequest now).2 = c ∨
      (c.allowRequest now).1 = true ∧ c.state = .open ∧ c.cooldown ≤ c.elapsed now ∧
        (c.allowRequest now).2 = { c with state := .halfOpen } := by
  cases hallowed : (c.allowRequest now).1 with
  | false => exact .inl ⟨rfl, allowRequest_refused hallowed⟩
  | true =>
    right
    unfold allowRequest at hallowed ⊢
    cases havail : c.available with
    | false => simp [havail] at hallowed
    | true =>
      rw [havail] at hallowed
      cases hs : c.state with
      | closed => exact .inl ⟨rfl, rfl, by simp⟩
      | halfOpen => simp [hs] at hallowed
      | «open» =>
        by_cases hcool : c.cooldown ≤ c.elapsed now
        · exact .inr ⟨rfl, rfl, hcool, by simp [hcool]⟩
        · simp [hs, hcool] at hallowed

theorem CircuitBreaker.report_state_of_ne {b : CircuitBreaker} {name k : String} {now : ℕ}
    (r : Report) (h : k ≠ name) : (r.apply name now b).circuits k = b.circuits k := by
  cases r <;> simp [Report.apply, onSuccess, onFailure, CircuitBreaker.trip, update, h]

theorem watch_admission (answer : Answer Bar Point) (s : Inner) (t : Flow Bar Point Unit)
    (openings : Openings) (admitted : Admissions) (k : String) :
    Admission (s.breakers.state k) ((t.act answer s).1.breakers.state k) (openings k)
      ((watchAdmissions answer s t openings admitted).1 k) (admitted k)
      ((watchAdmissions answer s t openings admitted).2 k) := by
  have hsame : ∀ held', held' = admitted k ∨ held' = none → Admission (s.breakers.state k)
      (s.breakers.state k) (openings k) (openings k) (admitted k) held' :=
    fun held' h => .quiet (.inl rfl) rfl h
  cases t with
  | allow again name next =>
    have hafter : ((Flow.allow again name next).act answer s).1.breakers =
        (s.breakers.allowRequest s.now name).2 := rfl
    rw [hafter]
    by_cases hk : k = name
    · subst hk
      have hallow : (s.breakers.allowRequest s.now k).1 =
        ((s.breakers.circuits k).allowRequest s.now).1 := rfl
      have hstate : (s.breakers.allowRequest s.now k).2.state k =
          ((s.breakers.circuits k).allowRequest s.now).2.state := by
        unfold CircuitBreaker.allowRequest
        exact CircuitBreaker.state_update_self fun c : Circuit => (c.allowRequest s.now).2
      rw [hstate]
      rcases Circuit.allowRequest_cases (s.breakers.circuits k) s.now with
        ⟨hallowed, hc⟩ | ⟨hallowed, hclosed, hc⟩ | ⟨hallowed, hopen, -, hc⟩
      · rw [← hallow] at hallowed
        simp only [watchAdmissions, hallowed, hc]
        exact hsame _ (.inl rfl)
      · rw [← hallow] at hallowed
        simp only [watchAdmissions, hallowed, hc, if_true, hclosed]
        exact .admitted rfl rfl (Function.update_self ..)
      · rw [← hallow] at hallowed
        simp only [watchAdmissions, hallowed, hc, if_true]
        exact .probe hopen rfl rfl (Function.update_self ..)
    · have hstate : (s.breakers.allowRequest s.now name).2.state k = s.breakers.state k := by
        unfold CircuitBreaker.allowRequest
        exact CircuitBreaker.state_update_of_ne (fun c : Circuit => (c.allowRequest s.now).2) hk
      rw [hstate]
      simp only [watchAdmissions]
      split
      · exact hsame _ (.inl (Function.update_of_ne hk ..))
      · exact hsame _ (.inl rfl)
  | report name r next =>
    by_cases hk : k = name
    · subst hk
      have hheld : (watchAdmissions answer s (.report k r next) openings admitted).2 k = none :=
        Function.update_self ..
      have hafter : ((Flow.report k r next).act answer s).1.breakers.state k =
          (r.apply k s.now s.breakers).state k := rfl
      rw [hheld, hafter]
      by_cases hopens : s.breakers.state k ≠ .open ∧ (r.apply k s.now s.breakers).state k = .open
      · refine .opened hopens.2 ?_ rfl
        simp only [watchAdmissions, if_pos hopens]
        exact Function.update_self ..
      · refine .quiet ?_ ?_ (.inr rfl)
        · -- it stays open, or is closed: after a report no circuit is half open
          cases hs : (r.apply k s.now s.breakers).state k with
          | closed => exact .inr rfl
          | halfOpen => exact absurd rfl (CircuitBreaker.report_halfOpen r hs).1
          | «open» =>
            by_cases hbefore : s.breakers.state k = .open
            · exact .inl hbefore.symm
            · exact absurd ⟨hbefore, hs⟩ hopens
        · simp only [watchAdmissions, if_neg hopens]
    · have hafter : ((Flow.report name r next).act answer s).1.breakers.state k =
          s.breakers.state k := congrArg Circuit.state (CircuitBreaker.report_state_of_ne r hk)
      have hheld : (watchAdmissions answer s (.report name r next) openings admitted).2 k =
          admitted k := Function.update_of_ne hk ..
      have hopenings : (watchAdmissions answer s (.report name r next) openings admitted).1 k =
          openings k := by
        simp only [watchAdmissions]
        split
        · exact Function.update_of_ne hk ..
        · rfl
      rw [hafter, hheld, hopenings]
      exact hsame _ (.inl rfl)
  | kline name next | quote name next =>
    simp only [watchAdmissions]
    refine hsame _ ?_
    split
    · by_cases hk : k = name
      · subst hk; exact .inr (Function.update_self ..)
      · exact .inl (Function.update_of_ne hk ..)
    · exact .inl rfl
  | acquire gate next =>
    have hafter : ((Flow.acquire gate next).act answer s).1.breakers.state k =
        s.breakers.state k := by
      simp only [Flow.act]
      split <;> rfl
    rw [hafter]
    exact hsame _ (.inl rfl)
  | _ => exact hsame _ (.inl rfl)

/-- What a call holds from a circuit is from one of its openings, and none holds anything from
the opening of a circuit that is still open. -/
structure Admitted (p : Pool (Inner × Openings) (Request Bar Point)) : Prop where
  known : ∀ t ∈ p.threads, ∀ name n, t.2 name = some n → n ≤ p.shared.2 name
  fresh : ∀ name, p.shared.1.breakers.state name = .open → inFlight p name = 0
  single : Single p

variable {p : Pool (Inner × Openings) (Request Bar Point)} {filterValidBars : List Bar → List Bar}
  {chain : List String}

theorem Admitted.next (m : Pool.Move ℕ (Call Bar) (Answer Bar Point)) (h : Admitted p) :
    Admitted (Pool.next (watchedHub filterValidBars chain) p m) := by
  cases m with
  | env elapsed => exact ⟨h.known, h.fresh, h.single⟩
  | start call =>
    have hin : ∀ name, inFlight (Pool.next (watchedHub filterValidBars chain) p (.start call)) name =
        inFlight p name := by
      intro name
      have happend := @List.countP_append _ (fun t : Request Bar Point =>
        t.2 name = some (p.shared.2 name)) p.threads
        [(call.flow filterValidBars chain, fun _ => none)]
      refine happend.trans ?_
      simp [inFlight]
    refine ⟨fun t ht name n hn => ?_, fun name hopen => ?_, fun name hstate => ?_⟩
    · rcases List.mem_append.1 ht with ht | ht
      · exact h.known t ht name n hn
      · obtain rfl := List.mem_singleton.1 ht
        simp [watchedHub, Pool.watched] at hn
    · rw [hin]; exact h.fresh name hopen
    · rw [hin]; exact h.single name hstate
  | step i x =>
    cases ht : p.threads[i]? with
    | none => rw [Pool.next_none ht]; exact h
    | some t =>
      have hshared := @Pool.next_shared _ _ _ _ _ (watchedHub filterValidBars chain) p i x t ht
      have hcases := watch_admission x p.shared.1 t.1 p.shared.2 t.2
      generalize hw : watchAdmissions x p.shared.1 t.1 p.shared.2 t.2 = w at hcases
      have hshared' : (Pool.next (watchedHub filterValidBars chain) p (.step i x)).shared =
          ((t.1.act x p.shared.1).1, w.1) := by
        rw [hshared, ← hw]; rfl
      -- what the call holds afterwards, if it is still in flight
      have hback : ∀ u, ((watchedHub filterValidBars chain).act x p.shared t).2 = some u →
          u.2 = w.2 := by
        intro u hu
        obtain ⟨t', -, rfl⟩ := Option.map_eq_some_iff.1 hu
        rw [← hw]
      have hknown : ∀ name n, w.2 name = some n → n ≤ w.1 name := by
        intro name n hn
        have hheld := h.known t (List.mem_of_getElem? ht) name
        cases hcases name with
        | quiet _ hsame hheld' =>
          rcases hheld' with hheld' | hheld'
          · rw [hheld'] at hn; rw [hsame]; exact hheld n hn
          · rw [hheld'] at hn; simp at hn
        | admitted _ hsame hheld' | probe _ _ hsame hheld' =>
          rw [hheld'] at hn; rw [hsame]; exact (Option.some.inj hn).ge
        | opened _ _ hheld' => rw [hheld'] at hn; simp at hn
      have hgrows : ∀ name, p.shared.2 name ≤ w.1 name := by
        intro name
        cases hcases name <;> omega
      have hothers : ∀ u ∈ p.threads.eraseIdx i, ∀ name n, u.2 name = some n →
          n ≤ p.shared.2 name :=
        fun u hu => h.known u (List.mem_of_mem_eraseIdx hu)
      have hafter : ∀ u ∈ (Pool.next (watchedHub filterValidBars chain) p (.step i x)).threads,
          ∀ name n, u.2 name = some n → n ≤ w.1 name := by
        intro u hu name n hn
        rcases Pool.mem_next ht hu with hu | hu
        · rw [hback u hu] at hn; exact hknown name n hn
        · exact (hothers u hu name n hn).trans (hgrows name)
      have hcounts : ∀ name,
          let s' := (t.1.act x p.shared.1).1.breakers.state name
          let held := inFlight (Pool.next (watchedHub filterValidBars chain) p (.step i x)) name
          (s' = .open → held = 0) ∧ (s' ≠ .closed → held ≤ 1) := by
        intro name
        dsimp only
        have hbefore := Pool.countP_split (p := p)
          (fun u : Request Bar Point => u.2 name = some (p.shared.2 name)) ht
        have hnow := @Pool.countP_next _ _ _ _ _ (watchedHub filterValidBars chain) p i x t
          (fun u : Request Bar Point => u.2 name = some (w.1 name)) ht
        have hgiven : (((watchedHub filterValidBars chain).act x p.shared t).2.any
            fun u => u.2 name = some (w.1 name)) = true → w.2 name = some (w.1 name) := by
          intro hany
          obtain ⟨u, hu, hheld⟩ := (Option.any_eq_true _ _).1 hany
          rw [← hback u hu]
          exact of_decide_eq_true hheld
        have hfresh := h.fresh name
        have hsingle := h.single name
        unfold inFlight at hfresh hsingle ⊢
        rw [hshared']
        rw [hbefore] at hfresh hsingle
        rw [hnow]
        cases hcases name with
        | quiet hstate hsame hheld =>
          have hle : (if (((watchedHub filterValidBars chain).act x p.shared t).2.any
              fun u => u.2 name = some (w.1 name)) = true then 1 else 0) ≤
              if decide (t.2 name = some (p.shared.2 name)) = true then 1 else 0 := by
            split
            · rename_i hany
              have hw' := hgiven hany
              rcases hheld with hheld | hheld
              · rw [if_pos (decide_eq_true (by rw [← hheld, hw', hsame]))]
              · rw [hheld] at hw'; simp at hw'
            · omega
          rw [hsame] at hle ⊢
          refine ⟨fun hopen => ?_, fun hnot => ?_⟩
          · rw [hopen] at hstate
            have hnone := hfresh (hstate.resolve_right (by decide)).symm
            omega
          · have hone := hsingle fun hclosed => hnot (hstate.elim (·.trans hclosed) id)
            omega
        | admitted hstate => rw [hstate]; simp
        | probe hstate hstate' hsame hheld =>
          have hnone := hfresh hstate
          rw [hsame, hstate']
          refine ⟨by simp, fun _ => ?_⟩
          split <;> omega
        | opened hstate hsucc hheld =>
          -- what the others hold is from before this opening
          have hothers' : (p.threads.eraseIdx i).countP
              (fun u => u.2 name = some (w.1 name)) = 0 := by
            refine List.countP_eq_zero.2 fun u hu hheld' => ?_
            have hle := hothers u hu name _ (of_decide_eq_true hheld')
            omega
          have hnot : ¬ (((watchedHub filterValidBars chain).act x p.shared t).2.any
              fun u => u.2 name = some (w.1 name)) = true := by
            intro hany
            have hw' := hgiven hany
            rw [hheld] at hw'
            simp at hw'
          rw [hothers', if_neg hnot]
          omega
      refine ⟨?_, fun name hopen => ?_, fun name hstate => ?_⟩
      · rw [hshared']; exact hafter
      · rw [hshared'] at hopen; exact (hcounts name).1 hopen
      · rw [hshared'] at hstate; exact (hcounts name).2 hstate

/-- **At most one request** is in flight that an open circuit let through since it opened, until
it closes: in every run. -/
theorem single_run (config : BreakerConfig) (available : List (String × Bool)) (start : ℕ)
    (moves : List (Pool.Move ℕ (Call Bar) (Answer Bar Point))) :
    Single (Run.run (Pool.next (watchedHub filterValidBars chain))
      (idleWatched config available start) moves) := by
  have hidle : Admitted (idleWatched config available start :
      Pool (Inner × Openings) (Request Bar Point)) :=
    ⟨fun t ht => by simp [idleWatched] at ht, fun _ _ => rfl, fun _ _ => Nat.zero_le 1⟩
  exact (Run.run_invariant (fun _ m h => h.next m) moves _ hidle).single

/-! ## Only the probe decides -/

/-- An operation leaves a circuit as it was, makes its probe, or reports to it. -/
theorem act_circuit (answer : Answer Bar Point) (s : Inner) (t : Flow Bar Point Unit) (k : String) :
    (t.act answer s).1.breakers.circuits k = s.breakers.circuits k ∨
      (s.breakers.circuits k).state = .open ∧
        (t.act answer s).1.breakers.circuits k = { s.breakers.circuits k with state := .halfOpen } ∨
      ∃ r next, t = .report k r next := by
  cases t with
  | allow again name next =>
    have hafter : ((Flow.allow again name next).act answer s).1.breakers.circuits k =
        if k = name then ((s.breakers.circuits k).allowRequest s.now).2
          else s.breakers.circuits k := rfl
    rw [hafter]
    by_cases hk : k = name
    · rw [if_pos hk]
      rcases Circuit.allowRequest_cases (s.breakers.circuits k) s.now with
        ⟨-, hc⟩ | ⟨-, -, hc⟩ | ⟨-, hopen, -, hc⟩
      · exact .inl hc
      · exact .inl hc
      · exact .inr (.inl ⟨hopen, hc⟩)
    · rw [if_neg hk]; exact .inl rfl
  | report name r next =>
    by_cases hk : k = name
    · subst hk; exact .inr (.inr ⟨r, next, rfl⟩)
    · exact .inl (CircuitBreaker.report_state_of_ne r hk)
  | acquire gate next =>
    left
    simp only [Flow.act]
    split <;> rfl
  | _ => exact .inl rfl

/-- **A report in time** that closes a circuit, or changes its cooldown, is from the probe. -/
theorem InTime.decides {s : Inner} {openings : Openings} {admitted : Admissions} {name : String}
    {r : Report} (h : InTime s openings admitted name r) (hstate : s.breakers.state name ≠ .closed)
    (hchange : ((r.apply name s.now s.breakers).circuits name).state = .closed ∨
      ((r.apply name s.now s.breakers).circuits name).cooldown ≠
        (s.breakers.circuits name).cooldown) :
    admitted name = some (openings name) := by
  cases r with
  | success => exact h hstate
  | failure e =>
    by_cases hhalf : s.breakers.state name = .halfOpen
    · exact h hhalf
    · -- it finds the circuit open, and leaves it open with its cooldown
      have hopen : (s.breakers.circuits name).state = .open := by
        cases hs : (s.breakers.circuits name).state with
        | closed => exact absurd hs hstate
        | halfOpen => exact absurd hs hhalf
        | «open» => rfl
      have hafter : ((Report.failure e).apply name s.now s.breakers).circuits name =
          (s.breakers.circuits name).onFailure s.breakers.config s.now e := by
        simp [Report.apply, CircuitBreaker.onFailure, CircuitBreaker.update]
      have hkeeps : ((s.breakers.circuits name).onFailure s.breakers.config s.now e).state = .open ∧
          ((s.breakers.circuits name).onFailure s.breakers.config s.now e).cooldown =
            (s.breakers.circuits name).cooldown := by
        unfold Circuit.onFailure
        rw [if_neg (by rw [hopen]; decide)]
        cases classify e with
        | trip => exact ⟨rfl, rfl⟩
        | count => dsimp only; split <;> exact ⟨by first | rfl | exact hopen, rfl⟩
        | ignore => exact ⟨hopen, rfl⟩
      rw [hafter, hkeeps.1, hkeeps.2] at hchange
      simp at hchange
  | trip =>
    have hafter : (Report.trip.apply name s.now s.breakers).circuits name =
        (s.breakers.circuits name).trip s.now := by
      simp [Report.apply, CircuitBreaker.trip, CircuitBreaker.update]
    rw [hafter] at hchange
    simp [Circuit.trip] at hchange

theorem decided_of_punctual (m : Pool.Move ℕ (Call Bar) (Answer Bar Point)) (h : Punctual p m) :
    Decided filterValidBars chain p m := by
  intro name
  dsimp only
  intro hstate hchange
  -- a step that leaves the circuit as it was does not decide
  have hsame : (Pool.next (watchedHub filterValidBars chain) p m).shared.1.breakers.circuits name ≠
      p.shared.1.breakers.circuits name := by
    intro heq
    rw [heq] at hchange
    exact hchange.elim hstate fun hne => hne rfl
  cases m with
  | env elapsed => exact absurd rfl hsame
  | start call => exact absurd rfl hsame
  | step i x =>
    cases ht : p.threads[i]? with
    | none => rw [Pool.next_none ht] at hsame; exact absurd rfl hsame
    | some t =>
      have hshared : (Pool.next (watchedHub filterValidBars chain) p (.step i x)).shared.1 =
          (t.1.act x p.shared.1).1 :=
        congrArg Prod.fst (@Pool.next_shared _ _ _ _ _ (watchedHub filterValidBars chain) p i x t ht)
      rw [hshared] at hchange hsame
      rcases act_circuit x p.shared.1 t.1 name with hsame' | ⟨-, hprobe⟩ | ⟨r, next, hreport⟩
      · exact absurd hsame' hsame
      · rw [hprobe] at hchange
        simp at hchange
      · refine ⟨i, x, t, r, next, rfl, ht, hreport, ?_⟩
        have hstep := h t ht
        rw [hreport] at hchange hstep
        exact hstep.1.decides hstate hchange

/-! ## An open circuit is skipped -/

/-- The chain of the flow asks a provider only right after its circuit let the request through;
that of `asked`, if any, has. -/
def Flow.Gated : Option String → Flow Bar Point α → Prop
  | _, done _ => True
  | _, allow _ name next => Gated (some name) (next true) ∧ Gated none (next false)
  | _, report _ _ next | _, acquire _ next | _, release _ next | _, shareList next => Gated none next
  | asked, kline name next => asked = some name ∧ ∀ r, Gated none (next r)
  | asked, quote name next => asked = some name ∧ ∀ r, Gated none (next r)
  | _, supplement next => ∀ r, Gated none (next r)
  | _, enrich _ next => ∀ r, Gated none (next r)
  | _, fundFlow next => ∀ r, Gated none (next r)
  | _, breadth _ next => ∀ r, Gated none (next r)
  | _, lastGood next => ∀ r, Gated none (next r)
  | _, knownName next => ∀ r, Gated none (next r)

theorem Flow.Gated.of_none {asked : Option String} {x : Flow Bar Point α} (h : Gated none x) :
    Gated asked x := by
  cases x with
  | kline name next | quote name next => exact absurd h.1 (by simp)
  | _ => exact h

/-- A flow that does not ask at once is not let through to. -/
theorem Flow.Gated.unasked {name : String} {x : Flow Bar Point α} (h : Gated (some name) x)
    (hasks : x.asks ≠ some name) : Gated none x := by
  cases x with
  | kline other next | quote other next => exact absurd h.1.symm hasks
  | _ => exact h

/-- **Calls in sequence** ask only when each does. -/
theorem Flow.Gated.bind {asked : Option String} {x : Flow Bar Point α} {f : α → Flow Bar Point β}
    (hx : Gated asked x) (hf : ∀ a, Gated none (f a)) : Gated asked (x >>= f) := by
  show Gated asked (Flow.bind x f)
  induction x generalizing asked with
  | done a => exact (hf a).of_none
  | allow again name next ih => exact ⟨ih true hx.1, ih false hx.2⟩
  | report name r next ih => exact ih hx
  | acquire gate next ih | release gate next ih => exact ih hx
  | shareList next ih => exact ih hx
  | kline name next ih | quote name next ih => exact ⟨hx.1, fun r => ih r (hx.2 r)⟩
  | enrich bars next ih => exact fun r => ih r (hx r)
  | breadth provider next ih => exact fun r => ih r (hx r)
  | supplement next ih | fundFlow next ih | lastGood next ih | knownName next ih =>
    exact fun r => ih r (hx r)

theorem gated_pure (a : α) : Gated none (pure a : Flow Bar Point α) := trivial

theorem failover_gated {ask : String → Flow Bar Point (Except DataError α)}
    (hask : ∀ name, Gated (some name) (ask name)) (usable : α → Bool)
    (unsupported : String → List String) (chain failures : List String) :
    Gated none (failover ask usable unsupported chain failures) := by
  induction chain generalizing failures with
  | nil => exact gated_pure _
  | cons name chain ih =>
    refine ⟨(hask name).bind fun r => ?_, ih _⟩
    cases r with
    | ok f =>
      show Gated none (if usable f = true then _ else _)
      split
      · exact gated_pure _
      · exact ih _
    | error e => cases e <;> exact ih _

theorem fetchBaseKline_gated (filterValidBars : List Bar → List Bar) (chain : List String) :
    Gated none (fetchBaseKline filterValidBars chain : Flow Bar Point _) := by
  have hask (name : String) : Gated (some name)
      (.kline name .done : Flow Bar Point (Except DataError (Fetched (List Bar)))) :=
    ⟨rfl, fun _ => trivial⟩
  refine (failover_gated hask _ _ chain []).bind fun r => ?_
  cases r with
  | error failures => exact gated_pure _
  | ok fetched =>
    show Gated none (if _ then _ else _)
    split <;> exact gated_pure _

theorem supplementQuote_gated (out : Fetched Quote) :
    Gated none (supplementQuote out : Flow Bar Point _) := by
  unfold supplementQuote
  split
  · intro r
    cases r <;> trivial
  · exact gated_pure out

theorem fetchQuote_gated (chain : List String) :
    Gated none (fetchQuote chain : Flow Bar Point _) := by
  have hask (name : String) : Gated (some name)
      (.quote name .done : Flow Bar Point (Except DataError (Fetched Quote))) :=
    ⟨rfl, fun _ => trivial⟩
  refine (failover_gated hask _ _ chain []).bind fun r => ?_
  cases r with
  | error failures => exact gated_pure _
  | ok out =>
    intro known
    cases known
    all_goals
      refine (supplementQuote_gated out).bind fun named => ?_
      intro name
      cases name <;> exact gated_pure _

theorem enrichKline_gated (bars : List Bar) :
    Gated none (Astock.enrichKline bars : Flow Bar Point _) := by
  unfold Astock.enrichKline
  split
  · trivial
  · refine ⟨⟨?_, trivial⟩, trivial⟩
    rintro ⟨bars, _ | _ | _⟩ <;> trivial

theorem fetchFundFlowDaily_gated (symbol : String) :
    Gated none (fetchFundFlowDaily symbol : Flow Bar Point _) := by
  refine ⟨⟨?_, trivial⟩, trivial⟩
  rintro (_ | _ | _) <;> trivial

theorem breadthFrom_gated (circuit provider label : String) :
    Gated none (breadthFrom circuit provider label : Flow Bar Point _) := by
  refine ⟨fun r => ?_, trivial⟩
  cases r with
  | error e => trivial
  | ok fetched =>
    dsimp only [Flow.bind]
    cases validateMarketBreadth fetched.data <;> trivial

theorem fetchMarketBreadth_gated : Gated none (fetchMarketBreadth : Flow Bar Point _) := by
  refine (breadthFrom_gated _ _ _).bind fun eastmoney => ?_
  cases eastmoney with
  | ok fetched => trivial
  | error eastmoney =>
    refine (breadthFrom_gated _ _ _).bind fun tdx => ?_
    cases tdx with
    | ok fetched => trivial
    | error tdx =>
      intro snapshot
      cases snapshot <;> trivial

/-- **Every call** asks within the chain only what let it through. -/
theorem Call.flow_gated (filterValidBars : List Bar → List Bar) (chain : List String)
    (call : Call Bar) : Gated none (call.flow filterValidBars chain : Flow Bar Point Unit) := by
  have hdone {α : Type} (_ : α) : Gated none (pure () : Flow Bar Point Unit) := gated_pure ()
  cases call with
  | baseKline => exact (fetchBaseKline_gated filterValidBars chain).bind hdone
  | enrichKline bars => exact (enrichKline_gated bars).bind hdone
  | fundFlowDaily symbol => exact (fetchFundFlowDaily_gated symbol).bind hdone
  | marketBreadth => exact fetchMarketBreadth_gated.bind hdone
  | quote => exact (fetchQuote_gated chain).bind hdone

/-- The call is about to ask no provider, or one that is not in an outage. -/
def Poised (s : Inner) (t : Flow Bar Point Unit) : Prop :=
  Gated none t ∨ ∃ name, Gated (some name) t ∧ ¬ s.Out name

/-- **A call stays poised** while another operation starts no outage of what it is about to ask. -/
theorem Poised.stays {s s' : Inner} {t : Flow Bar Point Unit} (h : Poised s t)
    (hout : ∀ name, s'.Out name → s.Out name ∨ t.asks ≠ some name) : Poised s' t := by
  rcases h with h | ⟨name, h, hnot⟩
  · exact .inl h
  · by_cases hout' : s'.Out name
    · rcases hout name hout' with hbefore | hasks
      · exact absurd hbefore hnot
      · exact .inl (h.unasked hasks)
    · exact .inr ⟨name, h, hout'⟩

/-- An outage is there before an operation, or starts with a report. -/
theorem act_out {answer : Answer Bar Point} {s : Inner} {t : Flow Bar Point Unit} {name : String}
    (h : (t.act answer s).1.Out name) : s.Out name ∨ ∃ r next, t = .report name r next := by
  have hnow : (t.act answer s).1.now = s.now := by
    cases t with
    | acquire gate next => simp only [Flow.act]; split <;> rfl
    | _ => rfl
  rcases act_circuit answer s t name with hsame | ⟨-, hprobe⟩ | hreport
  · left
    unfold Inner.Out at h ⊢
    rwa [hsame, hnow] at h
  · exact absurd (hprobe ▸ h.1) (by simp)
  · exact .inr hreport

/-- **The call that moves** stays poised: what let it through is in no outage. -/
theorem Poised.act {answer : Answer Bar Point} {s : Inner} {t t' : Flow Bar Point Unit}
    (h : Poised s t) (ht : (t.act answer s).2 = some t') : Poised (t.act answer s).1 t' := by
  cases t with
  | done a => simp [Flow.act] at ht
  | allow again name next =>
    have hgated : Gated (some name) (next true) ∧ Gated none (next false) :=
      h.elim id (Exists.elim · fun _ hnamed => hnamed.1)
    obtain rfl := Option.some.inj ht
    have hafter : ((Flow.allow again name next).act answer s).1.breakers.circuits name =
        ((s.breakers.circuits name).allowRequest s.now).2 := by
      simp [Flow.act, CircuitBreaker.allowRequest, CircuitBreaker.update]
    have hstate (hs : ((s.breakers.circuits name).allowRequest s.now).2.state ≠ .open) :
        ¬ ((Flow.allow again name next).act answer s).1.Out name := by
      intro hout
      exact hs (hafter ▸ hout.1)
    rcases Circuit.allowRequest_cases (s.breakers.circuits name) s.now with
      ⟨hallowed, -⟩ | ⟨hallowed, hclosed, hc⟩ | ⟨hallowed, -, -, hc⟩
    · left
      have hnext : (s.breakers.allowRequest s.now name).1 = false := hallowed
      rw [hnext]
      exact hgated.2
    · right
      have hnext : (s.breakers.allowRequest s.now name).1 = true := hallowed
      rw [hnext]
      exact ⟨name, hgated.1, hstate (by rw [hc, hclosed]; decide)⟩
    · right
      have hnext : (s.breakers.allowRequest s.now name).1 = true := hallowed
      rw [hnext]
      exact ⟨name, hgated.1, hstate (by rw [hc]; simp)⟩
  | acquire gate next =>
    have hgated : Gated none next := h.elim id (Exists.elim · fun _ hnamed => hnamed.1)
    left
    by_cases hpermit : 0 < s.permits gate
    · simp only [Flow.act, hpermit, if_true, Option.some.injEq] at ht
      exact ht ▸ hgated
    · simp only [Flow.act, hpermit, if_false, Option.some.injEq] at ht
      exact ht ▸ hgated
  | report name r next =>
    have hgated : Gated none next := h.elim id (Exists.elim · fun _ hnamed => hnamed.1)
    obtain rfl := Option.some.inj ht
    exact .inl hgated
  | release gate next =>
    have hgated : Gated none next := h.elim id (Exists.elim · fun _ hnamed => hnamed.1)
    obtain rfl := Option.some.inj ht
    exact .inl hgated
  | shareList next =>
    have hgated : Gated none next := h.elim id (Exists.elim · fun _ hnamed => hnamed.1)
    obtain rfl := Option.some.inj ht
    exact .inl hgated
  | kline name next | quote name next =>
    have hgated : ∀ r, Gated none (next r) := by
      rcases h with h | ⟨_, h, _⟩
      · exact h.2
      · exact h.2
    obtain rfl := Option.some.inj ht
    exact .inl (hgated _)
  | enrich bars next =>
    have hgated : ∀ r, Gated none (next r) := h.elim id (Exists.elim · fun _ hnamed => hnamed.1)
    obtain rfl := Option.some.inj ht
    exact .inl (hgated _)
  | breadth provider next =>
    have hgated : ∀ r, Gated none (next r) := h.elim id (Exists.elim · fun _ hnamed => hnamed.1)
    obtain rfl := Option.some.inj ht
    exact .inl (hgated _)
  | supplement next | fundFlow next | lastGood next | knownName next =>
    have hgated : ∀ r, Gated none (next r) := h.elim id (Exists.elim · fun _ hnamed => hnamed.1)
    obtain rfl := Option.some.inj ht
    exact .inl (hgated _)

/-- Each call in flight is poised. -/
def AllPoised (p : Pool (Inner × Openings) (Request Bar Point)) : Prop :=
  ∀ t ∈ p.threads, Poised p.shared.1 t.1

theorem AllPoised.next (m : Pool.Move ℕ (Call Bar) (Answer Bar Point)) (hm : Punctual p m)
    (h : AllPoised p) : AllPoised (Pool.next (watchedHub filterValidBars chain) p m) := by
  cases m with
  | env elapsed =>
    intro t ht
    refine (h t ht).stays fun name hout => .inl ⟨hout.1, ?_⟩
    -- time only takes a circuit out of its outage
    have hlt : (p.shared.1.breakers.circuits name).elapsed (p.shared.1.now + elapsed) <
        (p.shared.1.breakers.circuits name).cooldown := hout.2
    unfold Circuit.elapsed at hlt ⊢
    cases hopened : (p.shared.1.breakers.circuits name).openedAt with
    | none => rw [hopened] at hlt; exact hlt
    | some t =>
      rw [hopened] at hlt
      have hlt' : p.shared.1.now + elapsed - t < (p.shared.1.breakers.circuits name).cooldown := hlt
      show p.shared.1.now - t < (p.shared.1.breakers.circuits name).cooldown
      omega
  | start call =>
    intro t ht
    rcases List.mem_append.1 ht with ht | ht
    · exact h t ht
    · obtain rfl := List.mem_singleton.1 ht
      exact .inl (Call.flow_gated filterValidBars chain call)
  | step i x =>
    cases ht : p.threads[i]? with
    | none => rw [Pool.next_none ht]; exact h
    | some t =>
      have hpoised := h t (List.mem_of_getElem? ht)
      have hshared : (Pool.next (watchedHub filterValidBars chain) p (.step i x)).shared.1 =
          (t.1.act x p.shared.1).1 :=
        congrArg Prod.fst (@Pool.next_shared _ _ _ _ _ (watchedHub filterValidBars chain) p i x t ht)
      intro u hu
      rw [hshared]
      rcases Pool.mem_next ht hu with hu | hu
      · obtain ⟨t', ht', rfl⟩ := Option.map_eq_some_iff.1 hu
        exact hpoised.act ht'
      · refine (h u (List.mem_of_mem_eraseIdx hu)).stays fun name hout => ?_
        rcases act_out hout with hbefore | ⟨r, next, hreport⟩
        · exact .inl hbefore
        · have hstep := hm t ht
          rw [hreport] at hstep hout
          exact .inr (hstep.2 hout u hu)

/-- A poised call that asks in time calls no provider in its outage. -/
theorem skips_of_poised (m : Pool.Move ℕ (Call Bar) (Answer Bar Point)) (hm : Punctual p m)
    (h : AllPoised p) : Skips p m := by
  cases m with
  | env elapsed => trivial
  | start call => trivial
  | step i x =>
    intro t ht name hcalls
    have hstep := hm t ht
    have hpoised := h t (List.mem_of_getElem? ht)
    obtain ⟨flow, admitted⟩ := t
    cases flow with
    | kline other next | quote other next =>
      obtain rfl : other = name := Option.some.inj hcalls
      rcases hpoised with hpoised | ⟨asked, hpoised, hnot⟩
      · exact absurd hpoised.1 (by simp)
      · obtain rfl := Option.some.inj hpoised.1
        exact hnot
    | supplement next => obtain rfl := Option.some.inj hcalls; exact hstep
    | shareList next => obtain rfl := Option.some.inj hcalls; exact hstep
    | _ => simp [Flow.calls] at hcalls

/-- **Only the probe decides, and open means skipped**, in every run in which a late report
decides nothing, no outage starts of a provider that another call is about to ask, and none is
asked outside the chain during its outage. -/
theorem punctual_decided (config : BreakerConfig) (available : List (String × Bool)) (start : ℕ)
    (filterValidBars : List Bar → List Bar) (chain : List String)
    (moves : List (Pool.Move ℕ (Call Bar) (Answer Bar Point)))
    (hpunctual : Run.Along (Pool.next (watchedHub filterValidBars chain)) Punctual
      (idleWatched config available start) moves) :
    Run.Along (Pool.next (watchedHub filterValidBars chain))
        (fun p m => Decided filterValidBars chain p m ∧ Skips p m)
        (idleWatched config available start) moves ∧
      Single (Run.run (Pool.next (watchedHub filterValidBars chain))
        (idleWatched config available start) moves) := by
  have hidle : AllPoised (idleWatched config available start :
      Pool (Inner × Openings) (Request Bar Point)) := by
    intro t ht
    simp [idleWatched] at ht
  refine ⟨?_, single_run config available start moves⟩
  exact Run.along_of_invariant (fun p m hm h => h.next m hm)
    (fun p m hm h => ⟨decided_of_punctual m hm, skips_of_poised m hm h⟩) moves _ hpunctual hidle

/-! ## A late answer -/

/-- Two calls that Tencent's circuit lets through: the first gets the challenge page, which opens
the circuit, and the second is answered after that. -/
def lateAnswer : List (Pool.Move ℕ (Call Unit) (Answer Unit Unit)) :=
  [.start .baseKline, .start .baseKline, .step 0 {}, .step 1 {}, .step 0 blocked, .step 0 {},
    .step 1 answered]

/-- The second call's report closes the circuit, long before a probe is due. -/
theorem late_decided :
    ¬ ∀ (config : BreakerConfig) (available : List (String × Bool)) (start : ℕ)
      (filterValidBars : List Unit → List Unit) (chain : List String)
      (moves : List (Pool.Move ℕ (Call Unit) (Answer Unit Unit))),
      Run.Along (Pool.next (watchedHub filterValidBars chain))
          (fun p m => Decided filterValidBars chain p m ∧ Skips p m)
          (idleWatched config available start) moves ∧
        Single (Run.run (Pool.next (watchedHub filterValidBars chain))
          (idleWatched config available start) moves) := by
  intro h
  obtain ⟨halong, -⟩ := h {} unconfigured 0 id defaultChain (lateAnswer ++ [.step 1 {}])
  obtain ⟨-, ⟨hdecided, -⟩, -⟩ := Run.along_append.1 halong
  obtain ⟨i, x, t, r, next, hm, ht, -, hheld⟩ :=
    hdecided "tencent" (by decide) (.inl (by decide))
  -- what the second call holds is from before the circuit opened
  have hnot : ((Run.run (Pool.next (watchedHub id defaultChain)) (idleWatched {} unconfigured 0)
      lateAnswer).threads[1]?.any fun t : Request Unit Unit => t.2 "tencent" =
        some ((Run.run (Pool.next (watchedHub id defaultChain))
          (idleWatched {} unconfigured 0) lateAnswer).shared.2 "tencent")) = false := by
    decide
  obtain ⟨rfl, -⟩ := Pool.Move.step.inj hm
  rw [ht] at hnot
  simp [hheld] at hnot

/-- An outage that the probe ends. -/
theorem probed_decided :
    Run.Along (Pool.next (watchedHub id defaultChain))
        (fun p m => Decided id defaultChain p m ∧ Skips p m)
        (idleWatched {} unconfigured 0 : Pool (Inner × Openings) (Request Unit Unit)) probed ∧
      Single (Run.run (Pool.next (watchedHub id defaultChain))
        (idleWatched {} unconfigured 0 : Pool (Inner × Openings) (Request Unit Unit)) probed) :=
  punctual_decided {} unconfigured 0 id defaultChain probed (by decide)

end Astock
