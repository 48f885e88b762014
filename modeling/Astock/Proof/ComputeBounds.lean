import Astock.Lib.Meter
import Astock.Spec.Compute

/-!
# Calculation programs stay within their bounds

Every operator keeps the length of a series within its bounds, spends fuel for itself and indexes
only what there is, as long as validation has let its arguments through.

* `accepted_of_validate`: what validation promises of a program.
* `rollingFrom_defined`: the count of missing observations never falls below zero.
* `bounded_eval`: one evaluation, by induction on the expression.
* `declares_of_reaches`: the environment holds the inputs and the bindings evaluated so far.
* `program_within_bounds`: the bounds of a whole program.
-/

namespace Astock.Compute

open Prog AnalyticFloat

variable {F : Type}

/-! ## Expressions -/

/-- The expressions directly below an expression. -/
def Expr.children : Expr F → List (Expr F)
  | .scalar _ | .var _ => []
  | .add left right | .sub left right | .mul left right | .div left right
  | .correlation left right => [left, right]
  | .neg input | .abs input | .clip input _ _ | .lag input _ | .diff input | .returns input
  | .logReturns input | .cumulativeReturn input | .sma input _ | .ema input _
  | .rollingStd input _ _ | .zscore input _ | .rsi input _ | .tail input _ | .mean input
  | .std input | .sum input | .min input | .max input | .last input | .count input
  | .maxDrawdown input => [input]

/-- The number of AST nodes. -/
def Expr.nodes : Expr F → ℕ
  | .scalar _ | .var _ => 1
  | .add left right | .sub left right | .mul left right | .div left right
  | .correlation left right => left.nodes + right.nodes + 1
  | .neg input | .abs input | .clip input _ _ | .lag input _ | .diff input | .returns input
  | .logReturns input | .cumulativeReturn input | .sma input _ | .ema input _
  | .rollingStd input _ _ | .zscore input _ | .rsi input _ | .tail input _ | .mean input
  | .std input | .sum input | .min input | .max input | .last input | .count input
  | .maxDrawdown input => input.nodes + 1

/-- The expressions below an expression. -/
def Expr.inside : Expr F → List (Expr F)
  | .scalar _ | .var _ => []
  | .add left right | .sub left right | .mul left right | .div left right
  | .correlation left right => (left :: left.inside) ++ right :: right.inside
  | .neg input | .abs input | .clip input _ _ | .lag input _ | .diff input | .returns input
  | .logReturns input | .cumulativeReturn input | .sma input _ | .ema input _
  | .rollingStd input _ _ | .zscore input _ | .rsi input _ | .tail input _ | .mean input
  | .std input | .sum input | .min input | .max input | .last input | .count input
  | .maxDrawdown input => input :: input.inside

/-- A property of an expression and of every expression below it. -/
def Expr.All (P : Expr F → Prop) (e : Expr F) : Prop := P e ∧ ∀ c ∈ e.inside, P c

theorem Expr.all_iff {P : Expr F → Prop} {e : Expr F} :
    e.All P ↔ P e ∧ ∀ c ∈ e.children, c.All P := by
  have hinside : ∀ c, c ∈ e.inside ↔ ∃ d ∈ e.children, c = d ∨ c ∈ d.inside := by
    intro c
    cases e <;> simp [inside, children, or_assoc]
  simp only [All, hinside]
  refine and_congr_right fun _ => ⟨fun h d hd => ⟨h d ⟨d, hd, .inl rfl⟩, fun c hc => ?_⟩, ?_⟩
  · exact h c ⟨d, hd, .inr hc⟩
  · rintro h c ⟨d, hd, rfl | hc⟩
    · exact (h c hd).1
    · exact (h d hd).2 c hc

theorem Expr.induct_children {P : Expr F → Prop} (h : ∀ e, (∀ c ∈ e.children, P c) → P e) :
    ∀ e, P e := by
  intro e
  induction e <;> refine h _ ?_ <;> clear h <;> simp only [children, List.forall_mem_cons] <;>
    simp [*]

/-- A property of every expression inside is one of every expression inside one of them. -/
theorem Expr.All.parts {P : Expr F → Prop} {e : Expr F} (h : e.All P) :
    e.All fun part => part.All P := by
  induction e using Expr.induct_children with
  | h e ih =>
    refine Expr.all_iff.2 ⟨h, fun c hc => ih c hc ?_⟩
    exact (Expr.all_iff.1 h).2 c hc

variable [AnalyticFloat F]

/-- What validation checks of an expression itself, as far as its evaluation relies on it. -/
def Expr.Checked : Expr F → Prop
  | .scalar value => isFinite value
  | .clip _ low high => isFinite low ∧ isFinite high ∧ low ≤ high
  | .sma _ window | .ema _ window | .rollingStd _ window _ | .zscore _ window | .rsi _ window =>
    1 ≤ window
  | .tail _ length => 1 ≤ length
  | _ => True

theorem failIf_ok {c : Prop} [Decidable c] {e : ComputeError} {a : Unit}
    (h : failIf c e = .ok a) : ¬ c := by
  intro hc
  rw [failIf, if_pos hc] at h
  cases h

theorem validateWindow_ok {window : ℕ} {a : Unit} (h : validateWindow window = .ok a) :
    1 ≤ window :=
  (not_not.1 (failIf_ok h)).1

theorem validateExpr_inv {e : Expr F} {depth nodes n : ℕ} (h : validateExpr e depth nodes = .ok n) :
    e.Checked ∧ ∀ c ∈ e.children, ∃ depth nodes n, validateExpr c depth nodes = .ok n := by
  cases e
  all_goals
    rw [validateExpr] at h
    obtain ⟨-, -, h⟩ := except_bind_ok h
    obtain ⟨-, -, h⟩ := except_bind_ok h
  case scalar value =>
    obtain ⟨_, hvalue, -⟩ := except_bind_ok h
    have hvalue := failIf_ok hvalue
    simp only [unreasonable, Bool.or_eq_true, not_or] at hvalue
    exact ⟨by simpa [Expr.Checked] using hvalue.1, by simp [Expr.children]⟩
  case var name => exact ⟨trivial, by simp [Expr.children]⟩
  case clip input low high =>
    obtain ⟨_, hbounds, hinput⟩ := except_bind_ok h
    have hbounds := failIf_ok hbounds
    simp only [Bool.or_eq_true, not_or, Bool.not_eq_true', Bool.not_eq_false, decide_eq_true_eq]
      at hbounds
    obtain ⟨⟨hlow, hhigh⟩, hordered⟩ := hbounds
    exact ⟨⟨hlow, hhigh, le_of_not_lt _ _ hlow hhigh hordered⟩, by simpa [Expr.children] using ⟨_, _, _, hinput⟩⟩
  case tail input count =>
    obtain ⟨_, hcount, hinput⟩ := except_bind_ok h
    have hcount := failIf_ok hcount
    exact ⟨by simp only [Expr.Checked]; omega, by simpa [Expr.children] using ⟨_, _, _, hinput⟩⟩
  case lag input periods =>
    obtain ⟨-, -, hinput⟩ := except_bind_ok h
    exact ⟨trivial, by simpa [Expr.children] using ⟨_, _, _, hinput⟩⟩
  case rollingStd input window annualization =>
    obtain ⟨_, hwindow, h⟩ := except_bind_ok h
    obtain ⟨-, -, hinput⟩ := except_bind_ok h
    exact ⟨validateWindow_ok hwindow, by simpa [Expr.children] using ⟨_, _, _, hinput⟩⟩
  case add left right | sub left right | mul left right | div left right | correlation left right =>
    obtain ⟨nodes', hleft, hright⟩ := except_bind_ok h
    refine ⟨trivial, ?_⟩
    simp only [Expr.children, List.forall_mem_cons]
    exact ⟨⟨_, _, _, hleft⟩, ⟨_, _, _, hright⟩, by simp⟩
  case sma input window | ema input window | zscore input window | rsi input window =>
    obtain ⟨_, hwindow, hinput⟩ := except_bind_ok h
    exact ⟨validateWindow_ok hwindow, by simpa [Expr.children] using ⟨_, _, _, hinput⟩⟩
  all_goals exact ⟨trivial, by simpa [Expr.children] using ⟨_, _, _, h⟩⟩

theorem checked_of_validateExpr (e : Expr F) :
    ∀ {depth nodes n : ℕ}, validateExpr e depth nodes = .ok n → e.All Expr.Checked := by
  induction e using Expr.induct_children with
  | h e ih =>
    intro depth nodes n h
    obtain ⟨hself, hchildren⟩ := validateExpr_inv h
    refine Expr.all_iff.2 ⟨hself, fun c hc => ?_⟩
    obtain ⟨depth', nodes', n', hvalid⟩ := hchildren c hc
    exact ih c hc hvalid

/-- The expressions of a program. -/
def Program.expressions (program : Program F) : List (Expr F) :=
  program.bindings.map Binding.expr ++ program.outputs.entries.map Prod.snd

theorem checked_of_validateExprs {l : List (Expr F)} :
    ∀ {nodes n : ℕ}, validateExprs nodes l = .ok n → ∀ e ∈ l, e.All Expr.Checked := by
  induction l with
  | nil => exact fun _ _ he => nomatch he
  | cons e l ih =>
    intro nodes n h
    obtain ⟨nodes', he, hl⟩ := except_bind_ok h
    exact List.forall_mem_cons.2 ⟨checked_of_validateExpr e he, ih hl⟩

/-- A series of an accepted input. -/
structure AcceptedSeries (values : List (Option F)) : Prop where
  nonempty : 1 ≤ values.length
  bounded : values.length ≤ maxSeriesLen
  finite : ∀ value, some value ∈ values → isFinite value

theorem accepted_of_validateInputs {inputs : List (String × List (Option F))} :
    ∀ {total : ℕ} {names : List String}, validateInputs total inputs = .ok names →
      ∀ input ∈ inputs, AcceptedSeries input.2 := by
  induction inputs with
  | nil => exact fun _ _ hinput => nomatch hinput
  | cons input inputs ih =>
    intro total names h
    obtain ⟨name, values⟩ := input
    rw [validateInputs] at h
    obtain ⟨-, -, h⟩ := except_bind_ok h
    obtain ⟨_, hlength, h⟩ := except_bind_ok h
    obtain ⟨-, -, h⟩ := except_bind_ok h
    obtain ⟨_, hvalues, h⟩ := except_bind_ok h
    obtain ⟨names', hrest, -⟩ := except_bind_ok h
    have hlength := failIf_ok hlength
    have hvalues := failIf_ok hvalues
    refine List.forall_mem_cons.2 ⟨⟨?_, ?_, fun value hvalue => ?_⟩, ih hrest⟩
    · rcases values with _ | ⟨value, values⟩
      · simp at hlength
      · simp
    · simp only [Bool.or_eq_true, not_or, decide_eq_true_eq, not_lt] at hlength
      exact hlength.2
    · by_contra hinfinite
      refine hvalues (List.any_eq_true.2 ⟨value, by simpa using hvalue, ?_⟩)
      simp only [unreasonable, Bool.or_eq_true]
      exact .inl (by simpa using hinfinite)

/-- **What validation promises.** -/
structure Accepted (program : Program F) : Prop where
  inputs : ∀ input ∈ program.inputs.entries, AcceptedSeries input.2
  expressions : ∀ e ∈ program.expressions, e.All Expr.Checked

theorem accepted_of_validate {program : Program F} (h : validate program = .ok ()) :
    Accepted program := by
  rw [validate] at h
  obtain ⟨-, -, h⟩ := except_bind_ok h
  obtain ⟨-, -, h⟩ := except_bind_ok h
  obtain ⟨-, -, h⟩ := except_bind_ok h
  obtain ⟨-, -, h⟩ := except_bind_ok h
  obtain ⟨names, hinputs, h⟩ := except_bind_ok h
  obtain ⟨-, -, h⟩ := except_bind_ok h
  obtain ⟨-, -, h⟩ := except_bind_ok h
  obtain ⟨nodes, hbindings, h⟩ := except_bind_ok h
  obtain ⟨nodes', houtputs, -⟩ := except_bind_ok h
  refine ⟨accepted_of_validateInputs hinputs, fun e he => ?_⟩
  obtain he | he := List.mem_append.1 he
  · exact checked_of_validateExprs hbindings e he
  · exact checked_of_validateExprs houtputs e he

/-! ## Operations on series -/

/-- The operation does not panic, and keeps the length. -/
def KeepsLength (body : List (Option F) → Option (List (Option F))) : Prop :=
  ∀ values, ∃ out, body values = some out ∧ out.length = values.length

theorem length_pairChange (values : List (Option F)) (operation : F → F → Option F) :
    (pairChange values operation).length = values.length := by
  cases values with
  | nil => rfl
  | cons value rest => simp [pairChange]

theorem length_wealthFrom (values : List (Option F)) :
    ∀ wealth, (wealthFrom wealth values).length = values.length := by
  induction values with
  | nil => exact fun _ => rfl
  | cons value rest ih =>
    intro wealth
    cases value with
    | none => simp [wealthFrom, ih]
    | some value =>
      simp only [wealthFrom]
      split <;> simp [ih]

theorem length_emaFrom (alpha : F) (values : List (Option F)) :
    ∀ current, (emaFrom alpha current values).length = values.length := by
  induction values with
  | nil => exact fun _ => rfl
  | cons value rest ih =>
    intro current
    cases value with
    | none => simp [emaFrom, ih]
    | some value => simp only [emaFrom, List.length_cons, ih]

/-- The slice of the source is in range because the lag is below the length. -/
theorem lag_defined (periods : ℕ) : KeepsLength fun values : List (Option F) => lag values periods := by
  intro values
  simp only [lag]
  split
  · rename_i hperiods
    have hsource : slice values 0 (values.length - periods) =
        some (values.take (values.length - periods)) := by
      rw [slice, if_pos ⟨Nat.zero_le _, Nat.sub_le _ _⟩, List.drop_zero]
    refine ⟨(List.replicate values.length none).take periods ++
      values.take (values.length - periods), ?_, ?_⟩
    · simp only [checkedSub, if_pos hperiods.le, hsource, cloneFromSlice, Option.bind_eq_bind,
        Option.bind_some]
      rw [slice, if_pos (by simpa using hperiods.le)]
      simp
    · simp
      omega
  · exact ⟨_, rfl, by simp⟩

/-- The number of missing observations. -/
def missingIn (values : List (Option F)) : ℕ := values.countP Option.isNone

/-- The window before an index, shorter at the start of the series. -/
def windowBefore (values : List (Option F)) (window index : ℕ) : List (Option F) :=
  (values.take index).drop (index - window)

theorem missing_enter (m : Moments F) (value : Option F) :
    (m.enter value).missing = m.missing + missingIn [value] := by
  cases value <;> rfl

/-- An observation that was counted can be taken away. -/
theorem leave_defined (m : Moments F) (value : Option F) (h : missingIn [value] ≤ m.missing) :
    ∃ m', m.leave value = some m' ∧ m'.missing + missingIn [value] = m.missing := by
  cases value with
  | some value => exact ⟨_, rfl, rfl⟩
  | none =>
    have hmissing : 1 ≤ m.missing := h
    refine ⟨{ m with missing := m.missing - 1 }, ?_, Nat.sub_add_cancel hmissing⟩
    simp [Moments.leave, checkedSub, hmissing]

omit [AnalyticFloat F] in
theorem windowBefore_enter {values : List (Option F)} {window index : ℕ} {value : Option F}
    (h : values[index]? = some value) :
    (values.take (index + 1)).drop (index - window) = windowBefore values window index ++ [value] := by
  have hindex : index < values.length := (List.getElem?_eq_some_iff.1 h).1
  rw [List.take_add_one, h, List.drop_append_of_le_length]
  · rfl
  · simp
    omega

omit [AnalyticFloat F] in
theorem windowBefore_leave {values : List (Option F)} {window index : ℕ} {left : Option F}
    (hwindow : window ≤ index) (hindex : index < values.length)
    (h : values[index - window]? = some left) :
    (values.take (index + 1)).drop (index - window) =
      left :: windowBefore values window (index + 1) := by
  have hleft : (values.take (index + 1))[index - window]? = some left := by
    rw [List.getElem?_take_of_lt (by omega), h]
  obtain ⟨hlt, rfl⟩ := List.getElem?_eq_some_iff.1 hleft
  rw [List.drop_eq_getElem_cons hlt, windowBefore, show index + 1 - window = index - window + 1 by omega]

/-- **The rolling loop.** What is missing is counted over the window, so that an observation that
leaves it has been counted. -/
theorem rollingFrom_defined {values : List (Option F)} {window : ℕ}
    (operation : F → F → F → ℕ → Option F) (rest : List (Option F)) :
    ∀ (index : ℕ) (m : Moments F), values.drop index = rest →
      m.missing = missingIn (windowBefore values window index) →
      ∃ out, rollingFrom values window operation index m rest = some out ∧
        out.length = rest.length := by
  induction rest with
  | nil => exact fun _ _ _ _ => ⟨[], rfl, rfl⟩
  | cons value rest ih =>
    intro index m hrest hm
    have hvalue : values[index]? = some value := by
      rw [← List.head?_drop, hrest]; rfl
    have hindex : index < values.length := (List.getElem?_eq_some_iff.1 hvalue).1
    have hrest' : values.drop (index + 1) = rest := by
      rw [← List.tail_drop, hrest]; rfl
    have hentered : (m.enter value).missing =
        missingIn ((values.take (index + 1)).drop (index - window)) := by
      rw [missing_enter, hm, windowBefore_enter hvalue, missingIn, missingIn, missingIn,
        List.countP_append]
    simp only [rollingFrom]
    by_cases hwindow : window ≤ index
    · have hpast : index - window < values.length := by omega
      have hleft := List.getElem?_eq_getElem hpast
      have hcount := windowBefore_leave hwindow hindex hleft
      rw [hcount, missingIn, ← List.singleton_append, List.countP_append] at hentered
      obtain ⟨m', hleave, hm'⟩ := leave_defined (m.enter value)
        values[index - window] (by rw [hentered]; exact Nat.le_add_right _ _)
      obtain ⟨out, hout, hlength⟩ := ih (index + 1) m' hrest' (by
        simp only [missingIn] at hm' ⊢
        omega)
      simp [Moments.slide, if_pos hwindow, checkedSub, hleft, hleave, hout, hlength]
    · have hshort : index - window = index + 1 - window := by omega
      rw [hshort] at hentered
      obtain ⟨out, hout, hlength⟩ := ih (index + 1) (m.enter value) hrest' hentered
      simp [Moments.slide, if_neg hwindow, hout, hlength]

theorem rollingWithCurrent_defined (window : ℕ) (operation : F → F → F → ℕ → Option F) :
    KeepsLength fun values => rollingWithCurrent values window operation :=
  fun values => rollingFrom_defined operation values 0 _ rfl (by simp [missingIn, windowBefore])

theorem rolling_defined (window : ℕ) (operation : F → F → ℕ → Option F) :
    KeepsLength fun values => rolling values window operation :=
  rollingWithCurrent_defined window _

/-- A traversal in which no step fails. -/
theorem mapM_defined {α β : Type} {f : α → Option β} {l : List α} (h : ∀ a ∈ l, ∃ b, f a = some b) :
    ∃ bs, l.mapM f = some bs ∧ List.Forall₂ (fun a b => f a = some b) l bs := by
  induction l with
  | nil => exact ⟨[], rfl, .nil⟩
  | cons a l ih =>
    obtain ⟨ha, hl⟩ := List.forall_mem_cons.1 h
    obtain ⟨b, hb⟩ := ha
    obtain ⟨bs, hbs, hforall⟩ := ih hl
    refine ⟨b :: bs, ?_, .cons hb hforall⟩
    rw [List.mapM_cons, hb, hbs]
    rfl

theorem averageMoves_defined {values : List (Option F)} (window : ℕ) (h : values ≠ []) :
    ∃ gains losses, averageMoves values window = some (gains, losses) ∧
      gains.length = values.length - 1 ∧ losses.length = values.length - 1 := by
  have hvalues : 1 ≤ values.length := List.length_pos_iff.2 h
  obtain ⟨moves, hmoves, hforall⟩ := mapM_defined (l := List.range' 1 (values.length - 1))
    (f := moveAt values) fun index hindex => by
      obtain ⟨hone, hlt⟩ := List.mem_range'_1.1 hindex
      have hbefore : index - 1 < values.length := by omega
      have hhere : index < values.length := by omega
      refine ⟨move values[index - 1] values[index], ?_⟩
      simp [moveAt, checkedSub, hone, hbefore, hhere]
  have hlength : moves.length = values.length - 1 := by
    rw [← hforall.length_eq, List.length_range']
  have hslice : ∀ l : List (Option F), slice (none :: l) 1 (l.length + 1) = some l := by
    intro l
    rw [slice, if_pos ⟨by omega, by simp⟩]
    simp
  obtain ⟨gains, hgains, hgains'⟩ :=
    rolling_defined window (fun sum _ window => some (sum / Float64.lit window)) (moves.map Prod.fst)
  obtain ⟨losses, hlosses, hlosses'⟩ :=
    rolling_defined window (fun sum _ window => some (sum / Float64.lit window)) (moves.map Prod.snd)
  refine ⟨gains, losses, ?_, by simp [hgains', hlength], by simp [hlosses', hlength]⟩
  beta_reduce at hgains hlosses
  rw [averageMoves, hmoves]
  simp only [List.length_cons, hslice, Option.bind_eq_bind, Option.bind_some, hgains, hlosses]
  rfl

/-- The averages are those of the observations up to the one before, which there is because no
window is empty. -/
theorem rsi_defined {window : ℕ} (h : 1 ≤ window) :
    KeepsLength fun values : List (Option F) => rsi values window := by
  intro values
  simp only [rsi]
  split
  · exact ⟨_, rfl, by simp⟩
  · rename_i hlong
    have hne : values ≠ [] := by
      rintro rfl
      simp at hlong
    obtain ⟨gains, losses, haverages, hgains, hlosses⟩ := averageMoves_defined window hne
    obtain ⟨out, hout, hforall⟩ := mapM_defined
      (l := List.range' window (values.length - window))
      (f := strengthAt gains losses) fun index hindex => by
        obtain ⟨hfrom, hlt⟩ := List.mem_range'_1.1 hindex
        have hone : 1 ≤ index := h.trans hfrom
        have hgain : index - 1 < gains.length := by omega
        have hloss : index - 1 < losses.length := by omega
        refine ⟨strength gains[index - 1] losses[index - 1], ?_⟩
        simp [strengthAt, checkedSub, hone, hgain, hloss]
    refine ⟨List.replicate window none ++ out, ?_, ?_⟩
    · simp only [haverages, Option.bind_eq_bind, Option.bind_some, hout]
      rfl
    · have hlength := hforall.length_eq
      rw [List.length_range'] at hlength
      rw [List.length_append, List.length_replicate, ← hlength]
      omega

/-! ## Evaluation -/

/-- A series has a length within its bounds. -/
def ComputedValue.Sized : ComputedValue F → Prop
  | .scalar _ => True
  | .series values => 1 ≤ values.length ∧ values.length ≤ maxSeriesLen

/-- A computation that spends a unit of fuel for each of `n` nodes at least, stays within the fuel
and does not panic. -/
abbrev Bounded {α : Type} (x : Prog ℕ Stop α) (n : ℕ) (Q : α → Prop) : Prop :=
  Metered maxFuel (· ≠ .panic) x n Q

theorem exec_consume (amount used : ℕ) :
    exec (consume amount) used =
      (if used + amount.max 1 ≤ maxFuel then .ok ()
        else .error (.error (.limit s!"program consumed more than {maxFuel} fuel units")),
        used + amount.max 1) := by
  simp [consume, exec_bind, exec_guardOr]

theorem bounded_consume (amount : ℕ) : Bounded (consume amount) 1 fun _ => True := by
  intro start _ used hused
  subst hused
  rw [exec_consume]
  split
  · rename_i heq
    obtain ⟨hok, rfl⟩ := Prod.mk.inj heq
    split at hok
    · rename_i hle
      have hone : 1 ≤ amount.max 1 := Nat.le_max_right _ _
      exact ⟨by omega, hle, trivial⟩
    · cases hok
  · rename_i heq
    obtain ⟨herror, -⟩ := Prod.mk.inj heq
    split at herror
    · cases herror
    · obtain rfl := Except.error.inj herror
      exact fun h => nomatch h

theorem bounded_error {α : Type} {n : ℕ} {Q : α → Prop} (e : ComputeError) :
    Bounded (throw (.error e)) n Q :=
  metered_throw fun h => nomatch h

theorem bounded_guardOr {c : Bool} (e : ComputeError) :
    Bounded (guardOr c (.error e)) 0 fun _ => c = true := by
  unfold guardOr
  cases c with
  | true => exact metered_pure rfl
  | false => exact bounded_error e

theorem bounded_orPanic {α : Type} {o : Option α} {Q : α → Prop} (h : ∃ a, o = some a ∧ Q a) :
    Bounded (orPanic o) 0 Q := by
  obtain ⟨a, rfl, ha⟩ := h
  exact metered_pure ha

section Operators

variable {x y : Prog ℕ Stop (ComputedValue F)} {m n : ℕ}

theorem bounded_evalSeries (hx : Bounded x n ComputedValue.Sized) (operation : String) :
    Bounded (evalSeries x operation) n fun values =>
      1 ≤ values.length ∧ values.length ≤ maxSeriesLen := by
  refine (hx.bind (n := 0) fun v hv => ?_).weaken le_rfl fun _ h => h
  cases v with
  | scalar _ => exact bounded_error _
  | series values => exact metered_pure hv

theorem bounded_unary (hx : Bounded x n ComputedValue.Sized) {operation : F → Option (Option F)}
    (hoperation : ∀ value, ∃ out, operation value = some out) :
    Bounded (unary x operation) (n + 1) ComputedValue.Sized := by
  have hone : ∀ value, ∃ out, andThen operation value = some out := by
    intro value
    cases value with
    | none => exact ⟨none, rfl⟩
    | some value => exact hoperation value
  refine (hx.bind fun v hv => (bounded_consume _).bind (n := 0) fun _ _ => ?_).weaken le_rfl
    fun _ h => h
  cases v with
  | scalar value =>
    obtain ⟨out, hout⟩ := hone value
    exact ((bounded_orPanic (Q := fun _ => True) ⟨out, hout, trivial⟩).bind (n := 0)
      fun _ _ => metered_pure trivial)
  | series values =>
    obtain ⟨out, hout, hforall⟩ := mapM_defined fun value (_ : value ∈ values) => hone value
    refine (bounded_orPanic (Q := fun out => out.length = values.length)
      ⟨out, hout, hforall.length_eq.symm⟩).bind (n := 0) fun out hlength => metered_pure ?_
    simpa [ComputedValue.Sized, hlength] using hv

theorem bounded_binary (hx : Bounded x m ComputedValue.Sized) (hy : Bounded y n ComputedValue.Sized)
    (operation : F → F → Option F) :
    Bounded (binary x y operation) (m + n + 1) ComputedValue.Sized := by
  refine (hx.bind fun v hv => hy.bind fun w hw => (bounded_consume _).bind (n := 0)
    fun _ _ => ?_).weaken (by omega) fun _ h => h
  cases v with
  | scalar left =>
    cases w with
    | scalar right => exact metered_pure trivial
    | series values => exact metered_pure (by simpa [ComputedValue.Sized] using hw)
  | series values =>
    cases w with
    | scalar right => exact metered_pure (by simpa [ComputedValue.Sized] using hv)
    | series values' =>
      refine (bounded_guardOr _).bind (n := 0) fun _ hlength => metered_pure ?_
      have hlength : values.length = values'.length := of_decide_eq_true hlength
      simpa [ComputedValue.Sized, ← hlength] using hv

theorem bounded_pointwise (hx : Bounded x n ComputedValue.Sized) (operation : String)
    {body : List (Option F) → Option (List (Option F))} (hbody : KeepsLength body) :
    Bounded (pointwise x operation body) (n + 1) ComputedValue.Sized := by
  refine ((bounded_evalSeries hx operation).bind fun values hvalues =>
    (bounded_consume _).bind (n := 0) fun _ _ => ?_).weaken le_rfl fun _ h => h
  obtain ⟨out, hout, hlength⟩ := hbody values
  refine (bounded_orPanic (Q := fun out => out.length = values.length)
    ⟨out, hout, hlength⟩).bind (n := 0) fun out hlength => metered_pure ?_
  simpa [ComputedValue.Sized, hlength] using hvalues

theorem bounded_reduce (hx : Bounded x n ComputedValue.Sized) (operation : String)
    (reducer : List F → Option F) :
    Bounded (reduce x operation reducer) (n + 1) ComputedValue.Sized :=
  ((bounded_evalSeries hx operation).bind fun _ _ =>
    (bounded_consume _).bind (n := 0) fun _ _ => metered_pure trivial).weaken le_rfl fun _ h => h

/-- The last values of a series, at least one of them. -/
theorem slice_last {values : List (Option F)} {count : ℕ} (hcount : 1 ≤ count)
    (hvalues : 1 ≤ values.length) :
    ∃ out, slice values (values.length - count) values.length = some out ∧
      1 ≤ out.length ∧ out.length ≤ values.length := by
  refine ⟨(values.take values.length).drop (values.length - count), ?_, ?_, ?_⟩
  · rw [slice, if_pos ⟨Nat.sub_le _ _, le_rfl⟩]
  · simp
    omega
  · simp

theorem bounded_tail (hx : Bounded x n ComputedValue.Sized) {count : ℕ} (hcount : 1 ≤ count) :
    Bounded (do
      let values ← evalSeries x "tail"
      consume (Nat.min count values.length)
      return ComputedValue.series
        (← orPanic (slice values (values.length - count) values.length))) (n + 1)
      ComputedValue.Sized := by
  refine ((bounded_evalSeries hx _).bind fun values hvalues =>
    (bounded_consume _).bind (n := 0) fun _ _ => ?_).weaken le_rfl fun _ h => h
  obtain ⟨out, hout, hone, hle⟩ := slice_last hcount hvalues.1
  refine (bounded_orPanic (Q := fun out => 1 ≤ out.length ∧ out.length ≤ values.length)
    ⟨out, hout, hone, hle⟩).bind (n := 0) fun out hout => metered_pure ?_
  exact ⟨hout.1, hout.2.trans hvalues.2⟩

theorem bounded_correlation (hx : Bounded x m ComputedValue.Sized)
    (hy : Bounded y n ComputedValue.Sized) :
    Bounded (do
      let left ← evalSeries x "correlation"
      let right ← evalSeries y "correlation"
      guardOr (left.length = right.length)
        (.error (.type "correlation series must have equal lengths"))
      consume left.length
      return ComputedValue.scalar (correlation ((left.zip right).filterMap fun (left, right) => do
        return (← left, ← right)))) (m + n + 1) ComputedValue.Sized :=
  ((bounded_evalSeries hx _).bind fun _ _ => (bounded_evalSeries hy _).bind fun _ _ =>
    (bounded_guardOr _).bind fun _ _ => (bounded_consume _).bind (n := 0) fun _ _ =>
      metered_pure trivial).weaken (by omega) fun _ h => h

end Operators

/-- The bounds of the arguments of a `clip` are ordered. -/
theorem clamp_defined {low high : F} (h : low ≤ high) (value : F) :
    ∃ out, (clamp value low high).map some = some out := by
  rw [clamp, if_pos h]
  exact ⟨_, rfl⟩

/-- **One evaluation**, by induction on the expression. -/
theorem bounded_eval {env : Env F} (henv : ∀ name v, env name = some v → v.Sized) {e : Expr F}
    (he : e.All Expr.Checked) : Bounded (eval env e) e.nodes ComputedValue.Sized := by
  induction e using Expr.induct_children with
  | h e ih =>
    obtain ⟨hself, hbelow⟩ := Expr.all_iff.1 he
    replace ih : ∀ c ∈ e.children, Bounded (eval env c) c.nodes ComputedValue.Sized :=
      fun c hc => ih c hc (hbelow c hc)
    clear he hbelow
    cases e
    case scalar value =>
      exact ((bounded_consume 1).bind (n := 0) fun _ _ => metered_pure trivial)
    case var name =>
      simp only [eval]
      cases hname : env name with
      | none => exact bounded_error _
      | some v => exact ((bounded_consume _).bind (n := 0) fun _ _ => metered_pure (henv name v hname))
    all_goals
      simp only [Expr.children, List.forall_mem_cons, List.not_mem_nil, false_imp_iff,
        implies_true, and_true] at ih
      simp only [eval]
    case tail input count => exact bounded_tail ih hself
    case correlation left right => exact bounded_correlation ih.1 ih.2
    case maxDrawdown input =>
      exact ((bounded_evalSeries ih _).bind fun _ _ =>
        (bounded_consume _).bind (n := 0) fun _ _ => metered_pure trivial).weaken le_rfl fun _ h => h
    case add left right | sub left right | mul left right | div left right =>
      exact bounded_binary ih.1 ih.2 _
    case neg input | abs input => exact bounded_unary ih fun _ => ⟨_, rfl⟩
    case clip input low high => exact bounded_unary ih (clamp_defined hself.2.2)
    case mean input | std input | sum input | min input | max input | last input | count input =>
      exact bounded_reduce ih _ _
    case lag input periods => exact bounded_pointwise ih _ (lag_defined periods)
    case diff input | returns input | logReturns input =>
      exact bounded_pointwise ih _ fun values => ⟨_, rfl, length_pairChange values _⟩
    case cumulativeReturn input =>
      exact bounded_pointwise ih _ fun values => ⟨_, rfl, length_wealthFrom values _⟩
    case ema input window =>
      exact bounded_pointwise ih _ fun values => ⟨_, rfl, length_emaFrom _ values _⟩
    case sma input window | rollingStd input window annualization =>
      exact bounded_pointwise ih _ (rolling_defined window _)
    case zscore input window => exact bounded_pointwise ih _ (rollingWithCurrent_defined window _)
    case rsi input window => exact bounded_pointwise ih _ (rsi_defined hself)

/-! ## Programs -/

/-- Every series of an environment has a length within its bounds. -/
def Env.Sized (env : Env F) : Prop := ∀ name v, env name = some v → v.Sized

omit [AnalyticFloat F] in
theorem insert_some {env : Env F} {name name' : String} {v w : ComputedValue F}
    (h : env.insert name v name' = some w) : (name' = name ∧ w = v) ∨ env name' = some w := by
  by_cases hname : name' = name
  · subst hname
    exact .inl ⟨rfl, by simpa [Env.insert] using h.symm⟩
  · exact .inr (by simpa [Env.insert, hname] using h)

theorem Env.Sized.insert {env : Env F} (henv : env.Sized) {name : String} {v : ComputedValue F}
    (hv : v.Sized) : (env.insert name v).Sized := by
  intro name' w h
  obtain ⟨-, rfl⟩ | h := insert_some h
  · exact hv
  · exact henv name' w h

omit [AnalyticFloat F] in
theorem inputsEnv_some {inputs : List (String × List (Option F))} :
    ∀ {env : Env F} {name : String} {v : ComputedValue F}, inputsEnv inputs env name = some v →
      (∃ values, (name, values) ∈ inputs ∧ v = .series values) ∨ env name = some v := by
  induction inputs with
  | nil => exact fun h => .inr h
  | cons input inputs ih =>
    intro env name v h
    obtain ⟨name', values⟩ := input
    obtain ⟨values', hvalues, rfl⟩ | h := ih h
    · exact .inl ⟨values', List.mem_cons_of_mem _ hvalues, rfl⟩
    · obtain ⟨rfl, rfl⟩ | h := insert_some h
      · exact .inl ⟨values, List.mem_cons_self, rfl⟩
      · exact .inr h

/-- The number of AST nodes of a program. -/
def Program.nodes (program : Program F) : ℕ := (program.expressions.map Expr.nodes).sum

/-- The environment before any binding is evaluated. -/
def Program.start (program : Program F) : Env F := inputsEnv program.inputs.entries fun _ => none

/-- The first `k` bindings have been evaluated. -/
def Program.Reaches (program : Program F) (k : ℕ) (env : Env F) (used : ℕ) : Prop :=
  exec (evalBindings program.start (program.bindings.take k)) 0 = (.ok env, used)

/-- A value belongs to an input, or to one of the first `k` bindings. -/
def Program.Declares (program : Program F) (k : ℕ) (name : String) (v : ComputedValue F) : Prop :=
  (∃ values, (name, values) ∈ program.inputs.entries ∧ v = .series values) ∨
    ∃ i binding env used used', i < k ∧ program.bindings[i]? = some binding ∧ binding.name = name ∧
      program.Reaches i env used ∧ exec (eval env binding.expr) used = (.ok v, used')

theorem bounded_evalBindings {bindings : List (Binding F)}
    (h : ∀ binding ∈ bindings, binding.expr.All Expr.Checked) :
    ∀ {env : Env F}, env.Sized →
      Bounded (evalBindings env bindings) (bindings.map fun binding => binding.expr.nodes).sum
        Env.Sized := by
  induction bindings with
  | nil => exact fun henv => metered_pure henv
  | cons binding bindings ih =>
    obtain ⟨hbinding, hrest⟩ := List.forall_mem_cons.1 h
    exact fun henv => (bounded_eval henv hbinding).bind fun v hv => ih hrest (henv.insert hv)

theorem bounded_evalOutputs {env : Env F} (henv : env.Sized) {outputs : List (String × Expr F)}
    (h : ∀ output ∈ outputs, output.2.All Expr.Checked) :
    Bounded (evalOutputs env outputs) (outputs.map fun output => output.2.nodes).sum
      fun values => ∀ value ∈ values, value.2.Sized := by
  induction outputs with
  | nil => exact metered_pure fun _ hvalue => nomatch hvalue
  | cons output outputs ih =>
    obtain ⟨houtput, hrest⟩ := List.forall_mem_cons.1 h
    exact (bounded_eval henv houtput).bind fun v hv => (ih hrest).bind (n := 0) fun values hvalues =>
      metered_pure (List.forall_mem_cons.2 ⟨hv, hvalues⟩)

section Accepted

variable {program : Program F}

theorem Accepted.start (h : Accepted program) : program.start.Sized := by
  intro name v hv
  obtain ⟨values, hvalues, rfl⟩ | hv := inputsEnv_some hv
  · exact ⟨(h.inputs _ hvalues).nonempty, (h.inputs _ hvalues).bounded⟩
  · cases hv

theorem Accepted.binding (h : Accepted program) {binding : Binding F}
    (hbinding : binding ∈ program.bindings) : binding.expr.All Expr.Checked :=
  h.expressions _ (List.mem_append_left _ (List.mem_map_of_mem hbinding))

theorem Accepted.evaluate (h : Accepted program) :
    Bounded (evaluate program) program.nodes fun outputs => ∀ output ∈ outputs, output.2.Sized := by
  refine ((bounded_evalBindings (fun _ hbinding => h.binding hbinding) h.start).bind fun env henv =>
    bounded_evalOutputs henv fun output houtput => ?_).weaken ?_ fun _ h => h
  · exact h.expressions _ (List.mem_append_right _ (List.mem_map_of_mem houtput))
  · simp [Program.nodes, Program.expressions, Function.comp_def]

theorem Accepted.reaches (h : Accepted program) {k : ℕ} {env : Env F} {used : ℕ}
    (hreaches : program.Reaches k env used) : env.Sized :=
  ((bounded_evalBindings (fun _ hbinding => h.binding (List.mem_of_mem_take hbinding))
    h.start).ok (Nat.zero_le _) hreaches).2.2

end Accepted

theorem evalBindings_append (env : Env F) (l l' : List (Binding F)) :
    evalBindings env (l ++ l') = evalBindings env l >>= fun env => evalBindings env l' := by
  induction l generalizing env with
  | nil => simp only [List.nil_append, evalBindings, pure_bind]
  | cons binding l ih =>
    simp only [List.cons_append, evalBindings, ih, bind_assoc]

/-- **One binding more.** -/
theorem reaches_succ {program : Program F} {k : ℕ} {env' : Env F} {used' : ℕ}
    (h : program.Reaches (k + 1) env' used') :
    program.Reaches k env' used' ∨
      ∃ binding env used v, program.bindings[k]? = some binding ∧ program.Reaches k env used ∧
        exec (eval env binding.expr) used = (.ok v, used') ∧ env' = env.insert binding.name v := by
  rw [Program.Reaches, List.take_add_one] at h
  cases hbinding : program.bindings[k]? with
  | none =>
    rw [hbinding, Option.toList_none, List.append_nil] at h
    exact .inl h
  | some binding =>
    rw [hbinding, evalBindings_append] at h
    obtain ⟨env, used, henv, h⟩ := bind_ok_inv h
    obtain ⟨v, used'', hv, h⟩ := bind_ok_inv h
    obtain ⟨hinsert, rfl⟩ := Prod.mk.inj h
    exact .inr ⟨binding, env, used, v, rfl, henv, hv, (Except.ok.inj hinsert).symm⟩

/-- **Where a value comes from**, by induction on the bindings evaluated. -/
theorem declares_of_reaches {program : Program F} :
    ∀ {k : ℕ} {env : Env F} {used : ℕ}, program.Reaches k env used →
      ∀ name v, env name = some v → program.Declares k name v := by
  intro k
  induction k with
  | zero =>
    intro env used h name v hv
    obtain ⟨henv, -⟩ := Prod.mk.inj h
    obtain rfl := Except.ok.inj henv
    obtain hinput | hv := inputsEnv_some hv
    · exact .inl hinput
    · cases hv
  | succ k ih =>
    have hgrows : ∀ name v, program.Declares k name v → program.Declares (k + 1) name v := by
      rintro name v (hinput | ⟨i, binding, env, used, used', hi, hrest⟩)
      · exact .inl hinput
      · exact .inr ⟨i, binding, env, used, used', hi.trans (Nat.lt_succ_self k), hrest⟩
    intro env' used' h name w hw
    obtain h | ⟨binding, env, used, v, hbinding, henv, hv, rfl⟩ := reaches_succ h
    · exact hgrows name w (ih h name w hw)
    · obtain ⟨rfl, rfl⟩ | hw := insert_some hw
      · exact .inr ⟨k, binding, env, used, used', Nat.lt_succ_self k, hbinding, rfl, henv, hv⟩
      · exact hgrows name w (ih henv name w hw)

theorem execute_ok {fingerprint : Program F → Except ComputeError String} {program : Program F}
    {execution : Execution F} (h : execute fingerprint program = .ok execution) :
    exec (evaluate program) 0 = (.ok execution.outputs, execution.fuelUsed) := by
  rw [execute] at h
  obtain ⟨-, -, h⟩ := except_bind_ok h
  obtain ⟨digest, -, h⟩ := except_bind_ok h
  split at h
  · cases h
  · rename_i outputs used heq
    obtain rfl := Except.ok.inj h
    exact heq

theorem execute_panic {fingerprint : Program F → Except ComputeError String} {program : Program F}
    (h : execute fingerprint program = .error .panic) :
    ∃ used, exec (evaluate program) 0 = (.error .panic, used) := by
  rw [execute] at h
  cases hvalid : validate program with
  | error e =>
    rw [hvalid] at h
    cases h
  | ok _ =>
    cases hdigest : fingerprint program with
    | error e =>
      rw [hvalid, hdigest] at h
      cases h
    | ok digest =>
      rw [hvalid, hdigest] at h
      dsimp only [Except.mapError, bind, Except.bind] at h
      rcases heq : exec (evaluate program) 0 with ⟨stop | outputs, used⟩
      · rw [heq] at h
        obtain rfl := Except.error.inj h
        exact ⟨used, rfl⟩
      · rw [heq] at h
        cases h

/-- What is promised of the evaluation of a program. -/
structure WithinBounds (fingerprint : Program F → Except ComputeError String)
    (program : Program F) : Prop where
  /-- No index, slice or subtraction is out of range. -/
  safe : execute fingerprint program ≠ .error .panic
  metered : ∀ execution, execute fingerprint program = .ok execution →
    program.nodes ≤ execution.fuelUsed ∧ execution.fuelUsed ≤ maxFuel ∧
      ∀ output ∈ execution.outputs, output.2.Sized
  stored : ∀ k env used, program.Reaches k env used → env.Sized
  /-- Every expression of the program is bounded, and so is every part of one. -/
  intermediate : ∀ k env used, program.Reaches k env used → ∀ e ∈ program.expressions,
    e.All fun part => Bounded (eval env part) part.nodes ComputedValue.Sized
  /-- A variable is an input or an earlier binding. -/
  resolves : ∀ k env used, program.Reaches k env used → ∀ name start v used',
    exec (eval env (.var name)) start = (.ok v, used') → program.Declares k name v

/-- **Programs stay within their bounds.** -/
theorem program_within_bounds (fingerprint : Program F → Except ComputeError String)
    (program : Program F) (hvalid : validate program = .ok ()) :
    WithinBounds fingerprint program := by
  have h := accepted_of_validate hvalid
  refine ⟨fun hpanic => ?_, fun execution hexecution => ?_, fun k env used hreaches => h.reaches hreaches,
    fun k env used hreaches e he => ?_, fun k env used hreaches name start v used' hv => ?_⟩
  · obtain ⟨used, hrun⟩ := execute_panic hpanic
    exact h.evaluate.error (Nat.zero_le _) hrun rfl
  · have hrun := h.evaluate.ok (Nat.zero_le _) (execute_ok hexecution)
    exact ⟨(Nat.zero_add _).symm.trans_le hrun.1, hrun.2⟩
  · have hparts := (h.expressions e he).parts
    exact ⟨bounded_eval (h.reaches hreaches) hparts.1,
      fun c hc => bounded_eval (h.reaches hreaches) (hparts.2 c hc)⟩
  · simp only [eval] at hv
    cases hname : env name with
    | none => 
      rw [hname] at hv
      cases hv
    | some w =>
      rw [hname] at hv
      obtain ⟨-, used'', -, hv⟩ := bind_ok_inv hv
      obtain ⟨hv, -⟩ := Prod.mk.inj hv
      obtain rfl := Except.ok.inj hv
      exact declares_of_reaches hreaches name w hname

/-- A binding that lags a series further than it is long, and two windows over it. -/
def windowProgram : Program Extended where
  version := 1
  inputs := ⟨[("close", [some (.number 10), none, some (.number 12), some (.number 9)])], by decide⟩
  bindings := [⟨"past", .lag (.var "close") 9⟩]
  outputs := ⟨[("rsi", .rsi (.var "close") 2), ("sma", .sma (.add (.var "close") (.var "past")) 3)],
    by decide⟩

theorem program_within_bounds_windows :
    validate windowProgram = .ok () ∧ WithinBounds (fun _ => .ok "") windowProgram :=
  ⟨by decide +kernel, program_within_bounds _ _ (by decide +kernel)⟩

end Astock.Compute
