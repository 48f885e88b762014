import Astock.Proof.ComputeBounds

/-!
# Undefined results of a calculation

Every operator drops a value that is not finite, but two: `rsi` and `max_drawdown` hand on what their
own formula gives.

* `rsi_clean_iff`, `maxDrawdown_clean_iff`: the series on which these two are defined.
* `finite_eval`: one evaluation, by induction on the expression.
* `undefined_null`: what a run stores and returns is finite when both are defined wherever they are
  applied, and exactly then is every part of it.
-/

namespace Astock.Compute

open Prog Float64 AnalyticFloat

variable {F : Type} [AnalyticFloat F]

/-- A missing value, or a finite one. -/
def Clean (value : Option F) : Prop := ∀ x, value = some x → isFinite x

/-- Every present value is finite. -/
def ComputedValue.Finite : ComputedValue F → Prop
  | .scalar value => Clean value
  | .series values => ∀ value ∈ values, Clean value

def Env.Finite (env : Env F) : Prop := ∀ name v, env name = some v → v.Finite

theorem clean_none : Clean (none : Option F) := fun _ h => nomatch h

theorem clean_some {x : F} (h : isFinite x) : Clean (some x) := by
  rintro _ ⟨⟩
  exact h

theorem clean_finite (x : F) : Clean (finite x) := by
  intro y h
  rw [finite] at h
  split at h
  · obtain rfl := Option.some.inj h
    assumption
  · cases h

theorem clean_ite {c : Prop} [Decidable c] {x y : Option F} (hx : Clean x) (hy : Clean y) :
    Clean (if c then x else y) := by
  split
  · exact hx
  · exact hy

theorem clean_bind {α : Type} {o : Option α} {f : α → Option F} (h : ∀ a, Clean (f a)) :
    Clean (o.bind f) := by
  cases o with
  | none => exact clean_none
  | some a => exact h a

/-! ## Operators that drop what is not finite -/

theorem clean_zipNumber {operation : F → F → Option F} (h : ∀ a b, Clean (operation a b))
    (left right : Option F) : Clean (zipNumber left right operation) :=
  clean_bind fun a => clean_bind fun b => h a b

theorem clean_pairChange {operation : F → F → Option F} (h : ∀ a b, Clean (operation a b))
    (values : List (Option F)) : ∀ value ∈ pairChange values operation, Clean value := by
  rw [pairChange]
  split
  · exact fun _ hvalue => absurd hvalue List.not_mem_nil
  · refine List.forall_mem_cons.2 ⟨clean_none, List.forall_mem_map.2 fun pair _ => ?_⟩
    exact clean_bind fun previous => clean_bind fun current => h current previous

theorem clean_wealthFrom (values : List (Option F)) :
    ∀ wealth, ∀ value ∈ wealthFrom wealth values, Clean value := by
  induction values with
  | nil => exact fun _ _ hvalue => nomatch hvalue
  | cons value values ih =>
    intro wealth
    cases value with
    | none => exact List.forall_mem_cons.2 ⟨clean_none, ih wealth⟩
    | some value =>
      rw [wealthFrom]
      split
      · exact List.forall_mem_cons.2 ⟨clean_finite _, ih _⟩
      · exact List.forall_mem_cons.2 ⟨clean_none, ih wealth⟩

/-- The first observation, and the first after an overflow, is handed on as it is. -/
theorem clean_emaFrom {alpha : F} (values : List (Option F)) (h : ∀ value ∈ values, Clean value) :
    ∀ current, ∀ value ∈ emaFrom alpha current values, Clean value := by
  induction values with
  | nil => exact fun _ _ hvalue => nomatch hvalue
  | cons value values ih =>
    obtain ⟨hvalue, hvalues⟩ := List.forall_mem_cons.1 h
    intro current
    cases value with
    | none => exact List.forall_mem_cons.2 ⟨clean_none, ih hvalues current⟩
    | some value =>
      simp only [emaFrom]
      refine List.forall_mem_cons.2 ⟨?_, ih hvalues _⟩
      cases current with
      | none => exact hvalue
      | some previous => exact clean_finite _

theorem clean_rollingFrom {values : List (Option F)} {window : ℕ}
    {operation : F → F → F → ℕ → Option F} (h : ∀ current sum sumSq n, Clean (operation current sum sumSq n))
    (rest : List (Option F)) :
    ∀ {index : ℕ} {m : Moments F} {out}, rollingFrom values window operation index m rest = some out →
      ∀ value ∈ out, Clean value := by
  induction rest with
  | nil =>
    intro index m out hout
    obtain rfl := Option.some.inj hout
    exact fun _ hvalue => nomatch hvalue
  | cons value rest ih =>
    intro index m out hout
    rw [rollingFrom] at hout
    obtain ⟨m', -, hout⟩ := Option.bind_eq_some_iff.1 hout
    obtain ⟨out', hout', hout⟩ := Option.bind_eq_some_iff.1 hout
    obtain rfl := Option.some.inj hout
    exact List.forall_mem_cons.2 ⟨clean_ite (clean_bind fun _ => h _ _ _ _) clean_none, ih hout'⟩

theorem clean_rolling {values out : List (Option F)} {window : ℕ} {operation : F → F → ℕ → Option F}
    (h : ∀ sum sumSq n, Clean (operation sum sumSq n)) (hout : rolling values window operation = some out) :
    ∀ value ∈ out, Clean value :=
  clean_rollingFrom (fun _ => h) values hout

theorem clean_slice {values out : List (Option F)} {start stop : ℕ}
    (h : ∀ value ∈ values, Clean value) (hout : slice values start stop = some out) :
    ∀ value ∈ out, Clean value := by
  rw [slice] at hout
  split at hout
  · obtain rfl := Option.some.inj hout
    exact fun value hvalue => h value (List.mem_of_mem_take (List.mem_of_mem_drop hvalue))
  · cases hout

theorem clean_lag {values out : List (Option F)} {periods : ℕ} (h : ∀ value ∈ values, Clean value)
    (hout : lag values periods = some out) : ∀ value ∈ out, Clean value := by
  have hnone : ∀ value ∈ List.replicate values.length (none : Option F), Clean value := by
    intro value hvalue
    rw [List.eq_of_mem_replicate hvalue]
    exact clean_none
  simp only [lag] at hout
  split at hout
  · obtain ⟨kept, -, hout⟩ := Option.bind_eq_some_iff.1 hout
    obtain ⟨source, hsource, hout⟩ := Option.bind_eq_some_iff.1 hout
    obtain ⟨part, -, hout⟩ := Option.bind_eq_some_iff.1 hout
    split at hout
    · obtain rfl := Option.some.inj hout
      refine List.forall_mem_append.2 ⟨fun value hvalue => ?_, clean_slice h hsource⟩
      exact hnone value (List.mem_of_mem_take hvalue)
    · cases hout
  · obtain rfl := Option.some.inj hout
    exact hnone

theorem clean_correlation (pairs : List (F × F)) : Clean (correlation pairs) := by
  rw [correlation]
  exact clean_ite clean_none (clean_ite clean_none (clean_finite _))

/-- A `clip` of a finite value is that value or one of the bounds. -/
theorem clean_clamp {low high value : F} {out : Option F} (hlow : isFinite low)
    (hhigh : isFinite high) (hvalue : isFinite value)
    (hout : (clamp value low high).map some = some out) : Clean out := by
  rw [clamp] at hout
  split at hout
  · obtain rfl := Option.some.inj hout
    refine clean_some ?_
    by_cases hbelow : value < low
    · simp only [if_pos hbelow]
      split
      · exact hhigh
      · exact hlow
    · simp only [if_neg hbelow]
      split
      · exact hhigh
      · exact hvalue
  · cases hout

/-! ## Operators that do not -/

/-- The formula of `rsi` gives a finite value wherever there is an average gain and an average loss
other than zero. -/
def RsiDefined (values : List (Option F)) (window : ℕ) : Prop :=
  ∀ gains losses, averageMoves values window = some (gains, losses) →
    ∀ index ∈ List.range' window (values.length - window), ∀ gain loss,
      gains[index - 1]? = some (some gain) → losses[index - 1]? = some (some loss) →
        (loss == lit 0) = false → isFinite (lit 100 - lit 100 / (lit 1 + gain / loss))

/-- The declines from the peak so far. -/
def drawdowns (peak : Option F) : List F → List F
  | [] => []
  | value :: rest =>
    let peak := match peak with
      | none => value
      | some current => max current value
    if peak == lit 0 then drawdowns (some peak) rest
    else (value / peak - lit 1) :: drawdowns (some peak) rest

/-- No decline is infinite. -/
def DrawdownDefined (values : List F) : Prop :=
  ∀ decline ∈ drawdowns none values, decline < lit 0 → isFinite decline

theorem finite_lit_nat (n : ℕ) (h : n ≤ 2 ^ 64 := by decide) : isFinite (lit (n : ℚ) : F) := by
  refine finite_lit _ ?_
  rw [Nat.abs_cast]
  exact_mod_cast h

theorem strength_clean_iff {gain loss : Option F} :
    Clean (strength gain loss) ↔ ∀ g l, gain = some g → loss = some l → (l == lit 0) = false →
      isFinite (lit 100 - lit 100 / (lit 1 + g / l)) := by
  constructor
  · rintro h g l rfl rfl hl
    refine h _ ?_
    simp [strength, hl]
  · intro h
    cases gain with
    | none => exact clean_none
    | some g =>
      cases loss with
      | none => exact clean_none
      | some l =>
        rw [strength]
        cases hl : (l == lit 0 : Bool) with
        | true =>
          refine clean_some ?_
          split
          · exact finite_lit_nat 50
          · exact finite_lit_nat 100
        | false => exact clean_some (h g l rfl rfl hl)

theorem forall₂_of_mapM {α β : Type} {f : α → Option β} {l : List α} :
    ∀ {bs : List β}, l.mapM f = some bs → List.Forall₂ (fun a b => f a = some b) l bs := by
  induction l with
  | nil =>
    intro bs h
    obtain rfl := Option.some.inj h
    exact .nil
  | cons a l ih =>
    intro bs h
    rw [List.mapM_cons] at h
    obtain ⟨b, hb, h⟩ := Option.bind_eq_some_iff.1 h
    obtain ⟨bs', hbs, h⟩ := Option.bind_eq_some_iff.1 h
    obtain rfl := Option.some.inj h
    exact .cons hb (ih hbs)

/-- What a traversal returns, one by one. -/
theorem forall_mem_of_mapM {α β : Type} {f : α → Option β} {l : List α} {bs : List β}
    (h : l.mapM f = some bs) {P : β → Prop} :
    (∀ b ∈ bs, P b) ↔ ∀ a ∈ l, ∀ b, f a = some b → P b := by
  have hforall := forall₂_of_mapM h
  clear h
  induction hforall with
  | nil => simp
  | cons hb _ ih => simp [ih, hb]

theorem strengthAt_eq_some {gains losses : List (Option F)} {index : ℕ} {value : Option F}
    (h : 1 ≤ index) :
    strengthAt gains losses index = some value ↔ ∃ gain loss, gains[index - 1]? = some gain ∧
      losses[index - 1]? = some loss ∧ strength gain loss = value := by
  simp [strengthAt, checkedSub, h, Option.bind_eq_some_iff]

/-- **The series on which `rsi` is defined.** -/
theorem rsi_clean_iff {values out : List (Option F)} {window : ℕ} (hwindow : 1 ≤ window)
    (hout : rsi values window = some out) :
    (∀ value ∈ out, Clean value) ↔ RsiDefined values window := by
  rw [rsi] at hout
  split at hout
  · rename_i hshort
    obtain rfl := Option.some.inj hout
    refine ⟨fun _ gains losses _ index hindex => ?_, fun _ value hvalue => ?_⟩
    · rw [Nat.sub_eq_zero_of_le hshort] at hindex
      cases hindex
    · rw [List.eq_of_mem_replicate hvalue]
      exact clean_none
  · obtain ⟨⟨gains, losses⟩, haverages, hout⟩ := Option.bind_eq_some_iff.1 hout
    obtain ⟨last, hlast, hout⟩ := Option.bind_eq_some_iff.1 hout
    obtain rfl := Option.some.inj hout
    have hfirst : ∀ value ∈ List.replicate window (none : Option F), Clean value := by
      intro value hvalue
      rw [List.eq_of_mem_replicate hvalue]
      exact clean_none
    rw [List.forall_mem_append, forall_mem_of_mapM hlast, RsiDefined, haverages]
    have hone : ∀ index ∈ List.range' window (values.length - window), 1 ≤ index :=
      fun index hindex => hwindow.trans (List.mem_range'_1.1 hindex).1
    constructor
    · rintro ⟨-, h⟩ gains' losses' heq index hindex g l hg hl hzero
      obtain ⟨rfl, rfl⟩ := Prod.mk.inj (Option.some.inj heq)
      have hclean := h index hindex (strength (some g) (some l))
        ((strengthAt_eq_some (hone index hindex)).2 ⟨_, _, hg, hl, rfl⟩)
      exact strength_clean_iff.1 hclean g l rfl rfl hzero
    · refine fun h => ⟨hfirst, fun index hindex value hvalue => ?_⟩
      obtain ⟨gain, loss, hgain, hloss, rfl⟩ := (strengthAt_eq_some (hone index hindex)).1 hvalue
      refine strength_clean_iff.2 ?_
      rintro g l rfl rfl hzero
      exact h gains losses rfl index hindex g l hgain hloss hzero

/-- The loop of `max_drawdown` takes the smallest decline. -/
theorem foldl_observe (values : List F) :
    ∀ s : Drawdown F, (values.foldl Drawdown.observe s).worst =
        (drawdowns s.peak values).foldl min s.worst ∧
      (values.foldl Drawdown.observe s).observed = (s.observed || !(drawdowns s.peak values).isEmpty) := by
  induction values with
  | nil => exact fun s => ⟨rfl, by simp [drawdowns]⟩
  | cons value values ih =>
    intro s
    rw [List.foldl_cons]
    obtain ⟨hworst, hobserved⟩ := ih (s.observe value)
    rw [hworst, hobserved]
    simp only [drawdowns, Drawdown.observe]
    cases s.peak with
    | none => by_cases hzero : (value == lit 0) = true <;> simp [hzero]
    | some current => by_cases hzero : (max current value == lit 0) = true <;> simp [hzero]

/-- An infinite decline stays the worst. -/
theorem not_finite_foldl (declines : List F) :
    ∀ worst : F, ¬ isFinite worst → worst < lit 0 → ¬ isFinite (declines.foldl min worst) := by
  induction declines with
  | nil => exact fun _ h _ => h
  | cons decline declines ih =>
    intro worst h hzero
    obtain ⟨hmin, hbelow⟩ := min_of_not_finite worst decline h hzero
    exact ih _ hmin hbelow

theorem finite_foldl_iff (declines : List F) :
    ∀ worst : F, isFinite worst → (∀ x, x < worst → x < lit 0) →
      (isFinite (declines.foldl min worst) ↔
        ∀ decline ∈ declines, decline < lit 0 → isFinite decline) := by
  induction declines with
  | nil => exact fun worst h _ => ⟨(fun _ _ hdecline => nomatch hdecline), fun _ => h⟩
  | cons decline declines ih =>
    intro worst hworst hzero
    rw [List.foldl_cons, List.forall_mem_cons]
    by_cases hlt : decline < worst
    · rw [min_of_lt _ _ hlt]
      have hneg := hzero _ hlt
      by_cases hfinite : isFinite decline
      · rw [ih decline hfinite fun x hx => lt_trans _ _ _ hx hneg]
        exact ⟨fun h => ⟨fun _ => hfinite, h⟩, fun h => h.2⟩
      · refine ⟨fun h => absurd h (not_finite_foldl declines decline hfinite hneg), fun h => ?_⟩
        exact absurd (h.1 hneg) hfinite
    · obtain ⟨hmin, hsame⟩ := min_of_not_lt worst decline hworst hlt
      rw [ih _ hmin fun x hx => hzero x (hsame x hx)]
      refine ⟨fun h => ⟨fun hneg => ?_, h⟩, fun h => h.2⟩
      by_contra hfinite
      exact hlt (lt_of_not_finite _ _ hfinite hneg hworst)

/-- **The observations on which `max_drawdown` is defined.** -/
theorem maxDrawdown_clean_iff {values : List F} :
    Clean (maxDrawdown values) ↔ DrawdownDefined values := by
  obtain ⟨hworst, hobserved⟩ :=
    foldl_observe values { peak := none, worst := lit 0, observed := false }
  have hfold := finite_foldl_iff (drawdowns none values) (lit 0) (finite_lit_nat 0) fun _ h => h
  rw [maxDrawdown]
  simp only [hworst, hobserved, Bool.false_or, DrawdownDefined, ← hfold]
  cases hdeclines : drawdowns none values with
  | nil => simpa [Clean] using finite_lit_nat 0
  | cons decline declines => simp [Clean]

/-! ## Evaluation -/

/-- An operator is defined on the series that it is applied to, unless the fuel ends first. -/
def Expr.Defined (env : Env F) : Expr F → Prop
  | .rsi input window => ∀ start values used,
    exec (evalSeries (eval env input) "rsi") start = (.ok values, used) →
      used + values.length.max 1 ≤ maxFuel → RsiDefined values window
  | .maxDrawdown input => ∀ start values used,
    exec (evalSeries (eval env input) "max_drawdown") start = (.ok values, used) →
      used + values.length.max 1 ≤ maxFuel → DrawdownDefined (values.filterMap id)
  | _ => True

/-- Whatever the computation returns meets a condition. -/
def Yields {α : Type} (x : Prog ℕ Stop α) (Q : α → Prop) : Prop :=
  ∀ start a used, exec x start = (.ok a, used) → Q a

section Yields

variable {α β : Type} {x : Prog ℕ Stop α} {f : α → Prog ℕ Stop β} {Q : α → Prop} {R : β → Prop}

theorem yields_pure {a : α} (h : Q a) : Yields (pure a) Q := by
  intro start b used hb
  obtain ⟨hb, -⟩ := Prod.mk.inj hb
  obtain rfl := Except.ok.inj hb
  exact h

theorem yields_throw {stop : Stop} : Yields (throw stop : Prog ℕ Stop α) Q := by
  intro start b used hb
  obtain ⟨hb, -⟩ := Prod.mk.inj hb
  cases hb

theorem Yields.bind (hx : Yields x Q) (hf : ∀ a, Q a → Yields (f a) R) : Yields (x >>= f) R := by
  intro start b used hb
  obtain ⟨a, used', ha, hb⟩ := bind_ok_inv hb
  exact hf a (hx start a used' ha) used' b used hb

/-- The first part does not matter. -/
theorem yields_seq (hf : ∀ a, Yields (f a) R) : Yields (x >>= f) R :=
  Yields.bind (Q := fun _ => True) (fun _ _ _ _ => trivial) fun a _ => hf a

theorem yields_orPanic {o : Option α} (h : ∀ a, o = some a → Q a) : Yields (orPanic o) Q := by
  cases o with
  | none => exact yields_throw
  | some a => exact yields_pure (h a rfl)

end Yields

section Operators

variable {x y : Prog ℕ Stop (ComputedValue F)}

theorem yields_evalSeries (hx : Yields x ComputedValue.Finite) (operation : String) :
    Yields (evalSeries x operation) fun values => ∀ value ∈ values, Clean value := by
  refine hx.bind fun v hv => ?_
  cases v with
  | scalar _ => exact yields_throw
  | series values => exact yields_pure hv

theorem yields_unary (hx : Yields x ComputedValue.Finite) {operation : F → Option (Option F)}
    (h : ∀ value out, isFinite value → operation value = some out → Clean out) :
    Yields (unary x operation) ComputedValue.Finite := by
  have hone : ∀ value out, Clean value → andThen operation value = some out → Clean out := by
    intro value out hvalue hout
    cases value with
    | none =>
      obtain rfl := Option.some.inj hout
      exact clean_none
    | some value => exact h value out (hvalue value rfl) hout
  refine hx.bind fun v hv => yields_seq fun _ => ?_
  cases v with
  | scalar value =>
    exact Yields.bind (Q := Clean) (yields_orPanic fun out hout => hone value out hv hout)
      fun out hout => yields_pure hout
  | series values =>
    refine (yields_orPanic (Q := fun out => ∀ value ∈ out, Clean value) fun out hout => ?_).bind
      fun out hout => yields_pure hout
    exact (forall_mem_of_mapM hout).2 fun value hvalue out hout => hone value out (hv value hvalue) hout

theorem yields_binary {operation : F → F → Option F} (h : ∀ a b, Clean (operation a b)) :
    Yields (binary x y operation) ComputedValue.Finite := by
  refine yields_seq fun v => yields_seq fun w => yields_seq fun _ => ?_
  cases v with
  | scalar left =>
    cases w with
    | scalar right => exact yields_pure (clean_zipNumber h left right)
    | series values =>
      exact yields_pure (List.forall_mem_map.2 fun right _ => clean_zipNumber h left right)
  | series values =>
    cases w with
    | scalar right =>
      exact yields_pure (List.forall_mem_map.2 fun left _ => clean_zipNumber h left right)
    | series values' =>
      exact yields_seq fun _ =>
        yields_pure (List.forall_mem_map.2 fun pair _ => clean_zipNumber h pair.1 pair.2)

theorem yields_pointwise (hx : Yields x ComputedValue.Finite) (operation : String)
    {body : List (Option F) → Option (List (Option F))}
    (h : ∀ values out, (∀ value ∈ values, Clean value) → body values = some out →
      ∀ value ∈ out, Clean value) :
    Yields (pointwise x operation body) ComputedValue.Finite :=
  (yields_evalSeries hx operation).bind fun values hvalues => yields_seq fun _ =>
    (yields_orPanic (Q := fun out => ∀ value ∈ out, Clean value)
      fun out hout => h values out hvalues hout).bind fun _ hout => yields_pure hout

theorem yields_reduce (operation : String) (reducer : List F → Option F) :
    Yields (reduce x operation reducer) ComputedValue.Finite :=
  yields_seq fun _ => yields_seq fun _ => yields_pure (clean_bind clean_finite)

end Operators

theorem exec_consume_ok {amount used used' : ℕ} {a : Unit}
    (h : exec (consume amount) used = (.ok a, used')) : used + amount.max 1 ≤ maxFuel := by
  rw [exec_consume] at h
  obtain ⟨h, -⟩ := Prod.mk.inj h
  split at h
  · assumption
  · cases h

theorem exec_consume_of_le {amount used : ℕ} (h : used + amount.max 1 ≤ maxFuel) :
    exec (consume amount) used = (.ok (), used + amount.max 1) := by
  rw [exec_consume, if_pos h]

theorem exec_orPanic_ok {α : Type} {o : Option α} {a : α} {used used' : ℕ}
    (h : exec (orPanic o) used = (.ok a, used')) : o = some a := by
  cases o with
  | none =>
    obtain ⟨h, -⟩ := Prod.mk.inj h
    cases h
  | some b =>
    obtain ⟨h, -⟩ := Prod.mk.inj h
    exact congrArg some (Except.ok.inj h)

/-- `rsi` is defined where it is applied exactly when its result is finite. -/
theorem yields_rsi_iff {env : Env F} {input : Expr F} {window : ℕ} (hwindow : 1 ≤ window) :
    Yields (eval env (.rsi input window)) ComputedValue.Finite ↔
      Expr.Defined env (.rsi input window) := by
  constructor
  · intro h start values used hvalues hfuel
    obtain ⟨out, hout, -⟩ := rsi_defined hwindow values
    have hrun : exec (eval env (.rsi input window)) start =
        (.ok (.series out), used + values.length.max 1) := by
      rw [eval, pointwise, exec_bind_ok hvalues, exec_bind_ok (exec_consume_of_le hfuel)]
      simp only [hout]
      rfl
    exact (rsi_clean_iff hwindow hout).1 (h _ _ _ hrun)
  · intro h start v used' hv
    obtain ⟨values, used, hvalues, hv⟩ := bind_ok_inv hv
    obtain ⟨_, used'', hconsume, hv⟩ := bind_ok_inv hv
    obtain ⟨out, used₃, hout, hv⟩ := bind_ok_inv hv
    obtain ⟨hv, -⟩ := Prod.mk.inj hv
    obtain rfl := Except.ok.inj hv
    exact (rsi_clean_iff hwindow (exec_orPanic_ok hout)).2
      (h start values used hvalues (exec_consume_ok hconsume))

theorem yields_maxDrawdown_iff {env : Env F} {input : Expr F} :
    Yields (eval env (.maxDrawdown input)) ComputedValue.Finite ↔
      Expr.Defined env (.maxDrawdown input) := by
  constructor
  · intro h start values used hvalues hfuel
    have hrun : exec (eval env (.maxDrawdown input)) start =
        (.ok (.scalar (maxDrawdown (values.filterMap id))), used + values.length.max 1) := by
      rw [eval, exec_bind_ok hvalues, exec_bind_ok (exec_consume_of_le hfuel)]
      rfl
    exact maxDrawdown_clean_iff.1 (h _ _ _ hrun)
  · intro h start v used' hv
    obtain ⟨values, used, hvalues, hv⟩ := bind_ok_inv hv
    obtain ⟨_, used'', hconsume, hv⟩ := bind_ok_inv hv
    obtain ⟨hv, -⟩ := Prod.mk.inj hv
    obtain rfl := Except.ok.inj hv
    exact maxDrawdown_clean_iff.2 (h start values used hvalues (exec_consume_ok hconsume))

/-- **One evaluation**, by induction on the expression. -/
theorem finite_eval {env : Env F} (henv : env.Finite) {e : Expr F} (he : e.All Expr.Checked)
    (hdefined : e.All (Expr.Defined env)) : Yields (eval env e) ComputedValue.Finite := by
  induction e using Expr.induct_children with
  | h e ih =>
    obtain ⟨hself, hbelow⟩ := Expr.all_iff.1 he
    obtain ⟨happlied, hinside⟩ := Expr.all_iff.1 hdefined
    replace ih : ∀ c ∈ e.children, Yields (eval env c) ComputedValue.Finite :=
      fun c hc => ih c hc (hbelow c hc) (hinside c hc)
    clear he hbelow hdefined hinside
    cases e
    case scalar value => exact yields_seq fun _ => yields_pure (clean_some hself)
    case var name =>
      simp only [eval]
      cases hname : env name with
      | none => exact yields_throw
      | some v => exact yields_seq fun _ => yields_pure (henv name v hname)
    case rsi input window => exact (yields_rsi_iff hself).2 happlied
    case maxDrawdown input => exact yields_maxDrawdown_iff.2 happlied
    case correlation left right =>
      exact yields_seq fun _ => yields_seq fun _ => yields_seq fun _ => yields_seq fun _ =>
        yields_pure (clean_correlation _)
    all_goals
      simp only [Expr.children, List.forall_mem_cons, List.not_mem_nil, false_imp_iff,
        implies_true, and_true] at ih
      simp only [eval]
    case add left right | sub left right | mul left right =>
      exact yields_binary fun _ _ => clean_finite _
    case div left right => exact yields_binary fun _ _ => clean_ite clean_none (clean_finite _)
    case neg input | abs input =>
      refine yields_unary ih fun value out _ hout => ?_
      obtain rfl := Option.some.inj hout
      exact clean_finite _
    case clip input low high =>
      exact yields_unary ih fun value out hvalue hout => clean_clamp hself.1 hself.2.1 hvalue hout
    case mean input | std input | sum input | min input | max input | last input | count input =>
      exact yields_reduce _ _
    case lag input periods => exact yields_pointwise ih _ fun values out h hout => clean_lag h hout
    case diff input | returns input | logReturns input =>
      refine yields_pointwise ih _ fun values out _ hout => ?_
      obtain rfl := Option.some.inj hout
      refine clean_pairChange (fun _ _ => ?_) values
      first
        | exact clean_finite _
        | exact clean_ite clean_none (clean_finite _)
    case cumulativeReturn input =>
      refine yields_pointwise ih _ fun values out _ hout => ?_
      obtain rfl := Option.some.inj hout
      exact clean_wealthFrom values _
    case ema input window =>
      refine yields_pointwise ih _ fun values out h hout => ?_
      obtain rfl := Option.some.inj hout
      exact clean_emaFrom values h none
    case sma input window | rollingStd input window annualization =>
      exact yields_pointwise ih _ fun values out _ hout =>
        clean_rolling (fun _ _ _ => clean_finite _) hout
    case zscore input window =>
      exact yields_pointwise ih _ fun values out _ hout =>
        clean_rollingFrom (fun _ _ _ _ => clean_ite clean_none (clean_finite _)) values hout
    case tail input count =>
      exact (yields_evalSeries ih _).bind fun values hvalues => yields_seq fun _ =>
        Yields.bind (Q := fun out => ∀ value ∈ out, Clean value)
          (yields_orPanic fun out hout => clean_slice hvalues hout) fun _ hout => yields_pure hout

/-! ## Programs -/

/-- The expressions that are evaluated in the environment of the first `k` bindings. -/
def Program.stage (program : Program F) (k : ℕ) : List (Expr F) :=
  match program.bindings[k]? with
  | some binding => [binding.expr]
  | none => program.outputs.entries.map Prod.snd

/-- Each `rsi` and each `max_drawdown` of a run is defined where it is applied. -/
def Program.Defined (program : Program F) : Prop :=
  ∀ k env used, program.Reaches k env used → ∀ e ∈ program.stage k, e.All (Expr.Defined env)

/-- Every value of a run is finite, those of the parts of an expression included. -/
def Program.FiniteThroughout (program : Program F) : Prop :=
  ∀ k env used, program.Reaches k env used → env.Finite ∧
    ∀ e ∈ program.stage k, e.All fun part => Yields (eval env part) ComputedValue.Finite

/-- What is stored and what is returned is finite. -/
def FiniteResults (fingerprint : Program F → Except ComputeError String) (program : Program F) :
    Prop :=
  ∀ execution, execute fingerprint program = .ok execution →
    (∀ k env used, program.Reaches k env used → env.Finite) ∧
      ∀ output ∈ execution.outputs, output.2.Finite

theorem Env.Finite.insert {env : Env F} (henv : env.Finite) {name : String} {v : ComputedValue F}
    (hv : v.Finite) : (env.insert name v).Finite := by
  intro name' w h
  obtain ⟨-, rfl⟩ | h := insert_some h
  · exact hv
  · exact henv name' w h

section Accepted

variable {program : Program F}

theorem Accepted.start_finite (h : Accepted program) : program.start.Finite := by
  intro name v hv
  obtain ⟨values, hvalues, rfl⟩ | hv := inputsEnv_some hv
  · rintro value hvalue x rfl
    exact (h.inputs _ hvalues).finite x hvalue
  · cases hv

theorem Accepted.stage (h : Accepted program) {k : ℕ} {e : Expr F} (he : e ∈ program.stage k) :
    e.All Expr.Checked := by
  refine h.expressions e ?_
  rw [Program.stage] at he
  split at he
  · rename_i binding hbinding
    obtain rfl := List.mem_singleton.1 he
    exact List.mem_append_left _ (List.mem_map_of_mem (List.mem_of_getElem? hbinding))
  · exact List.mem_append_right _ he

/-- By induction on the bindings evaluated. -/
theorem finite_of_reaches (h : Accepted program) (hdefined : program.Defined) :
    ∀ {k : ℕ} {env : Env F} {used : ℕ}, program.Reaches k env used → env.Finite := by
  intro k
  induction k with
  | zero =>
    intro env used hreaches
    obtain ⟨henv, -⟩ := Prod.mk.inj hreaches
    obtain rfl := Except.ok.inj henv
    exact h.start_finite
  | succ k ih =>
    intro env' used' hreaches
    obtain hreaches | ⟨binding, env, used, v, hbinding, henv, hv, rfl⟩ := reaches_succ hreaches
    · exact ih hreaches
    · have hstage : binding.expr ∈ program.stage k := by simp [Program.stage, hbinding]
      exact (ih henv).insert
        (finite_eval (ih henv) (h.stage hstage) (hdefined k env used henv _ hstage) used v used' hv)

theorem defined_of_yields {env : Env F} {e : Expr F} (hchecked : e.Checked)
    (h : Yields (eval env e) ComputedValue.Finite) : e.Defined env := by
  cases e
  case rsi input window => exact (yields_rsi_iff hchecked).1 h
  case maxDrawdown input => exact yields_maxDrawdown_iff.1 h
  all_goals trivial

theorem defined_iff (h : Accepted program) : program.Defined ↔ program.FiniteThroughout := by
  constructor
  · intro hdefined k env used hreaches
    have henv := finite_of_reaches h hdefined hreaches
    refine ⟨henv, fun e he => ?_⟩
    have hchecked := (h.stage he).parts
    have hparts := (hdefined k env used hreaches e he).parts
    exact ⟨finite_eval henv hchecked.1 hparts.1,
      fun c hc => finite_eval henv (hchecked.2 c hc) (hparts.2 c hc)⟩
  · intro hfinite k env used hreaches e he
    have hchecked := h.stage he
    obtain ⟨hself, hinside⟩ := (hfinite k env used hreaches).2 e he
    exact ⟨defined_of_yields hchecked.1 hself,
      fun c hc => defined_of_yields (hchecked.2 c hc) (hinside c hc)⟩

theorem execute_eq (fingerprint : Program F → Except ComputeError String) {digest : String}
    {outputs : List (String × ComputedValue F)} {used : ℕ} (hvalid : validate program = .ok ())
    (hdigest : fingerprint program = .ok digest)
    (hrun : exec (evaluate program) 0 = (.ok outputs, used)) :
    execute fingerprint program = .ok {
      language := "astock-finance-calc"
      languageVersion
      programSha256 := digest
      fuelUsed := used
      outputs
      semantics } := by
  rw [execute, hvalid, hdigest]
  simp only [hrun]
  rfl

theorem yields_evalOutputs {env : Env F} {outputs : List (String × Expr F)}
    (h : ∀ output ∈ outputs, Yields (eval env output.2) ComputedValue.Finite) :
    Yields (evalOutputs env outputs) fun values => ∀ value ∈ values, value.2.Finite := by
  induction outputs with
  | nil => exact yields_pure fun _ hvalue => nomatch hvalue
  | cons output outputs ih =>
    obtain ⟨houtput, hrest⟩ := List.forall_mem_cons.1 h
    exact houtput.bind fun v hv => (ih hrest).bind fun values hvalues =>
      yields_pure (List.forall_mem_cons.2 ⟨hv, hvalues⟩)

theorem finite_results (hfinite : program.FiniteThroughout)
    (fingerprint : Program F → Except ComputeError String) : FiniteResults fingerprint program := by
  intro execution hexecution
  refine ⟨fun k env used hreaches => (hfinite k env used hreaches).1, ?_⟩
  obtain ⟨env, used, hbindings, houtputs⟩ := bind_ok_inv (execute_ok hexecution)
  have hreaches : program.Reaches program.bindings.length env used := by
    rw [Program.Reaches, List.take_length]
    exact hbindings
  refine yields_evalOutputs (fun output houtput => ?_) used execution.outputs _ houtputs
  have hstage : output.2 ∈ program.stage program.bindings.length := by
    rw [Program.stage, List.getElem?_eq_none le_rfl]
    exact List.mem_map_of_mem houtput
  exact ((hfinite _ env used hreaches).2 _ hstage).1

end Accepted

/-- **Undefined results become null** in a run in which every `rsi` and every `max_drawdown` is
defined where it is applied; these are the runs in which every value is finite, those that another
operator drops included. -/
theorem undefined_null (fingerprint : Program F → Except ComputeError String) (program : Program F)
    (hvalid : validate program = .ok ()) :
    (program.Defined → FiniteResults fingerprint program) ∧
      (program.Defined ↔ program.FiniteThroughout) := by
  have hiff := defined_iff (accepted_of_validate hvalid)
  exact ⟨fun hdefined => finite_results (hiff.1 hdefined) fingerprint, hiff⟩

theorem undefined_null_windows :
    validate windowProgram = .ok () ∧
      (windowProgram.Defined → FiniteResults (fun _ => .ok "") windowProgram) ∧
      (windowProgram.Defined ↔ windowProgram.FiniteThroughout) :=
  ⟨by decide +kernel, undefined_null _ _ (by decide +kernel)⟩

/-- A tiny peak, and a loss that is too large for a quotient by it. -/
def crashProgram : Program Extended where
  version := 1
  inputs := ⟨[("pnl", [some (.number (1 / 2 ^ 1000)), some (.number (-2 ^ 300))])], by decide⟩
  bindings := []
  outputs := ⟨[("drawdown", .maxDrawdown (.var "pnl"))], by decide⟩

/-- The drawdown of the crash is infinite. -/
theorem crash_infinite :
    ¬ ∀ (fingerprint : Program Extended → Except ComputeError String) (program : Program Extended),
      validate program = .ok () → FiniteResults fingerprint program := by
  intro h
  have hrun : exec (evaluate crashProgram) 0 = (.ok [("drawdown", .scalar (some .negInf))], 4) := by
    decide +kernel
  have hvalid : validate crashProgram = .ok () := by decide +kernel
  have hexecution := execute_eq (fun _ => .ok "") hvalid rfl hrun
  have hfinite := (h _ crashProgram hvalid _ hexecution).2 _ List.mem_cons_self
  have hnegInf := hfinite .negInf rfl
  cases hnegInf

end Astock.Compute
