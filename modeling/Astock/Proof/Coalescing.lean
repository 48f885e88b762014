import Astock.Lib.Slots
import Astock.Spec.SingleFlight

/-!
# Coalesced requests

* `Regular`: what every step keeps, in any interleaving: callers get what their execution came to,
  and executions of one key do not overlap.
* `Orderly`: no leader is dropped, and no caller starts between the return of a caller and that of
  the leader.
* `coalesced_orderly`: **in every orderly run, no call is served from the past**: each outcome is
  of an execution that was running when its caller started or that none had returned from, and an
  execution that is over is replaced.
-/

namespace Astock

open Slots

variable {T : Type} {s : Flights T}

/-- The caller has neither returned nor been dropped. -/
def Caller.InFlight (c : Caller T) : Prop := c.phase = .waiting ∨ ∃ out, c.phase = .ready out

def Caller.returnedAt (c : Caller T) : Option ℕ :=
  match c.phase with
  | .returned time _ => some time
  | _ => none

namespace Flights

/-! ## Updates -/

theorem outcome_eq_some {e : ℕ} {p : ℕ × T} :
    s.outcome e = some p ↔ ∃ x, s.executions[e]? = some x ∧ x.finished = some p := by
  unfold outcome
  rw [Option.bind_eq_some_iff]

def addCaller (s : Flights T) (c : Caller T) : Flights T := { s with callers := s.callers ++ [c] }

def addExecution (s : Flights T) (x : Execution T) : Flights T :=
  { s with
    map := Function.update s.map x.key (some s.executions.length)
    executions := s.executions ++ [x] }

def finishAt (s : Flights T) (e time : ℕ) (out : T) : Flights T :=
  { s with executions := s.executions.modify e fun x => { x with finished := some (time, out) } }

def removeEntry (s : Flights T) (key : String) : Flights T :=
  { s with map := Function.update s.map key none }

/-! ## What every step keeps -/

/-- What holds in any interleaving, leaders dropped or not. -/
structure Regular (s : Flights T) : Prop where
  entry : ∀ key e, s.map key = some e → ∃ x, s.executions[e]? = some x ∧ x.key = key
  latest : ∀ key e, s.map key = some e →
    ∀ (e' : ℕ) (x : Execution T), s.executions[e']? = some x → x.key = key → e' ≤ e
  pending : ∀ (e : ℕ) (x : Execution T), s.executions[e]? = some x → x.finished = none →
    s.map x.key = some e
  past : ∀ e p, s.outcome e = some p → p.1 < s.clock
  started : ∀ (i : ℕ) (c : Caller T), s.callers[i]? = some c → c.startedAt < s.clock
  served : ∀ (i : ℕ) (c : Caller T), s.callers[i]? = some c →
    ∃ x, s.executions[c.execution]? = some x ∧ x.key = c.key
  received : ∀ (i : ℕ) (c : Caller T) out, s.callers[i]? = some c →
    (c.phase = .ready out ∨ ∃ time, c.phase = .returned time out) →
      ∃ f, s.outcome c.execution = some (f, out)
  leads : ∀ (i : ℕ) (c : Caller T), s.callers[i]? = some c → c.leader = true → c.InFlight →
    s.map c.key = some c.execution
  sole : ∀ (i j : ℕ) (c d : Caller T), s.callers[i]? = some c → s.callers[j]? = some d → c.leader = true →
    d.leader = true → c.InFlight → d.InFlight → c.key = d.key → i = j
  apart : ∀ (e e' : ℕ) (x x' : Execution T), e < e' → s.executions[e]? = some x → s.executions[e']? = some x' →
    x.key = x'.key → ∃ p, x.finished = some p ∧ p.1 < x'.startedAt

theorem Regular.tick (h : Regular s) : Regular { s with clock := s.clock + 1 } :=
  { h with
    past := fun e p hp => Nat.lt_succ_of_lt (h.past e p hp)
    started := fun i c hc => Nat.lt_succ_of_lt (h.started i c hc) }

/-- A caller that joins, or that leads an execution which no caller leads. -/
theorem Regular.addCaller (h : Regular s) {c : Caller T} (hclock : c.startedAt < s.clock)
    (hwaiting : c.phase = .waiting)
    (hserved : ∃ x, s.executions[c.execution]? = some x ∧ x.key = c.key)
    (hleads : c.leader = true → s.map c.key = some c.execution)
    (hsole : c.leader = true → ∀ (i : ℕ) (d : Caller T), s.callers[i]? = some d → d.leader = true → d.InFlight →
      d.key ≠ c.key) : Regular (s.addCaller c) where
  entry := h.entry
  latest := h.latest
  pending := h.pending
  past := h.past
  started i d hd := by
    rcases append_getElem? hd with hd | ⟨-, rfl⟩
    · exact h.started i d hd
    · exact hclock
  served i d hd := by
    rcases append_getElem? hd with hd | ⟨-, rfl⟩
    · exact h.served i d hd
    · exact hserved
  received i d out hd hphase := by
    rcases append_getElem? hd with hd | ⟨-, rfl⟩
    · exact h.received i d out hd hphase
    · rw [hwaiting] at hphase
      simp at hphase
  leads i d hd hlead hflight := by
    rcases append_getElem? hd with hd | ⟨-, rfl⟩
    · exact h.leads i d hd hlead hflight
    · exact hleads hlead
  sole i j d d' hd hd' hlead hlead' hflight hflight' hkey := by
    rcases append_getElem? hd with hold | ⟨hi, heq⟩
    · rcases append_getElem? hd' with hold' | ⟨-, heq'⟩
      · exact h.sole i j d d' hold hold' hlead hlead' hflight hflight' hkey
      · rw [heq'] at hlead' hkey
        exact absurd hkey (hsole hlead' i d hold hlead hflight)
    · rcases append_getElem? hd' with hold' | ⟨hj, -⟩
      · rw [heq] at hlead hkey
        exact absurd hkey.symm (hsole hlead j d' hold' hlead' hflight')
      · exact hi.trans hj.symm
  apart := h.apart

/-- An execution of a key without an entry. -/
theorem Regular.addExecution (h : Regular s) {x : Execution T} (hentry : s.map x.key = none)
    (hnew : x.finished = none) (hpast : ∀ e p, s.outcome e = some p → p.1 < x.startedAt) :
    Regular (s.addExecution x) := by
  have hold : ∀ {e : ℕ} {y : Execution T}, s.executions[e]? = some y → (s.addExecution x).executions[e]? = some y := by
    intro e y hy
    obtain ⟨hlt, -⟩ := List.getElem?_eq_some_iff.1 hy
    exact (List.getElem?_append_left hlt).trans hy
  have hlast : (s.addExecution x).executions[s.executions.length]? = some x := by
    show (s.executions ++ [x])[s.executions.length]? = some x
    simp
  have hother : ∀ {key}, key ≠ x.key → (s.addExecution x).map key = s.map key := fun hkey =>
    Function.update_of_ne hkey _ _
  have houtcome : ∀ {e p}, (s.addExecution x).outcome e = some p → s.outcome e = some p := by
    intro e p hp
    obtain ⟨y, hy, hfinished⟩ := outcome_eq_some.1 hp
    rcases append_getElem? hy with hy | ⟨-, rfl⟩
    · exact outcome_eq_some.2 ⟨y, hy, hfinished⟩
    · rw [hnew] at hfinished
      simp at hfinished
  have hself : (s.addExecution x).map x.key = some s.executions.length := by
    unfold Flights.addExecution
    simp
  refine ⟨fun key e he => ?_, fun key e he e' y hy hkey => ?_, fun e y hy hpending => ?_,
    fun e p hp => h.past e p (houtcome hp), h.started, fun i c hc => ?_, fun i c out hc hphase => ?_, fun i c hc hlead hflight => ?_, h.sole,
    fun e e' y y' hlt hy hy' hkey => ?_⟩
  · by_cases hkey : key = x.key
    · subst hkey
      obtain rfl := Option.some.inj (hself.symm.trans he)
      exact ⟨x, hlast, rfl⟩
    · rw [hother hkey] at he
      obtain ⟨y, hy, hykey⟩ := h.entry key e he
      exact ⟨y, hold hy, hykey⟩
  · obtain ⟨hbound, -⟩ := List.getElem?_eq_some_iff.1 hy
    have hlength : (s.addExecution x).executions.length = s.executions.length + 1 :=
      List.length_append
    by_cases hkey' : key = x.key
    · subst hkey'
      obtain rfl := Option.some.inj (hself.symm.trans he)
      omega
    · rw [hother hkey'] at he
      rcases append_getElem? hy with hy | ⟨-, rfl⟩
      · exact h.latest key e he e' y hy hkey
      · exact absurd hkey.symm hkey'
  · rcases append_getElem? hy with hy | ⟨rfl, rfl⟩
    · have hmap := h.pending e y hy hpending
      have hkey : y.key ≠ x.key := by
        rintro hkey
        rw [hkey, hentry] at hmap
        simp at hmap
      rw [hother hkey]
      exact hmap
    · exact hself
  · obtain ⟨y, hy, hykey⟩ := h.served i c hc
    exact ⟨y, hold hy, hykey⟩
  · obtain ⟨f, hf⟩ := h.received i c out hc hphase
    obtain ⟨y, hy, hfinished⟩ := outcome_eq_some.1 hf
    exact ⟨f, outcome_eq_some.2 ⟨y, hold hy, hfinished⟩⟩
  · have hmap := h.leads i c hc hlead hflight
    have hkey : c.key ≠ x.key := by
      intro hkey
      rw [hkey, hentry] at hmap
      simp at hmap
    rw [hother hkey]
    exact hmap
  · have hbound : e < s.executions.length := by
      obtain ⟨hbound, -⟩ := List.getElem?_eq_some_iff.1 hy'
      have hlength : (s.addExecution x).executions.length = s.executions.length + 1 :=
        List.length_append
      omega
    have hyold : s.executions[e]? = some y := (List.getElem?_append_left hbound).symm.trans hy
    rcases append_getElem? hy' with hy' | ⟨-, rfl⟩
    · exact h.apart e e' y y' hlt hyold hy' hkey
    · -- all executions of the key are over, or there would be an entry
      cases hfinished : y.finished with
      | none =>
        have hmap := h.pending e y hyold hfinished
        rw [hkey, hentry] at hmap
        simp at hmap
      | some p => exact ⟨p, rfl, hpast e p (outcome_eq_some.2 ⟨y, hyold, hfinished⟩)⟩

/-- An execution comes to an end. -/
theorem Regular.finishAt (h : Regular s) {e time : ℕ} {out : T} (htime : time < s.clock)
    (hpending : s.outcome e = none) : Regular (s.finishAt e time out) := by
  have hnew : ∀ {e' : ℕ} {x : Execution T}, s.executions[e']? = some x →
      ∃ x', (s.finishAt e time out).executions[e']? = some x' ∧ x'.key = x.key ∧
        x'.startedAt = x.startedAt ∧ ∀ p, x.finished = some p → x'.finished = some p := by
    intro e' x hx
    refine ⟨if e = e' then { x with finished := some (time, out) } else x, ?_, ?_⟩
    · exact getElem?_modify_of _ e hx
    · by_cases hee : e = e'
      · rw [if_pos hee]
        refine ⟨rfl, rfl, fun p hp => ?_⟩
        rw [hee] at hpending
        exact absurd (outcome_eq_some.2 ⟨x, hx, hp⟩) (by rw [hpending]; simp)
      · rw [if_neg hee]
        exact ⟨rfl, rfl, fun p hp => hp⟩
  have hkept : ∀ {e' p}, s.outcome e' = some p → (s.finishAt e time out).outcome e' = some p := by
    intro e' p hp
    obtain ⟨x, hx, hfinished⟩ := outcome_eq_some.1 hp
    obtain ⟨x', hx', -, -, hfinished'⟩ := hnew hx
    exact outcome_eq_some.2 ⟨x', hx', hfinished' p hfinished⟩
  have hback : ∀ {e' : ℕ} {x' : Execution T}, (s.finishAt e time out).executions[e']? = some x' →
      ∃ x, s.executions[e']? = some x ∧ x'.key = x.key ∧ x'.startedAt = x.startedAt := by
    intro e' x' hx'
    obtain ⟨x, hx, ⟨-, rfl⟩ | ⟨-, rfl⟩⟩ := modify_getElem? hx'
    · exact ⟨x, hx, rfl, rfl⟩
    · exact ⟨_, hx, rfl, rfl⟩
  refine ⟨fun key e' he' => ?_, fun key e' he' e₁ x₁ hx₁ hkey => ?_, fun e' x' hx' hfinished => ?_,
    fun e' p hp => ?_, h.started,
    fun i c hc => ?_, fun i c out' hc hphase => ?_, h.leads, h.sole,
    fun e₁ e₂ x₁' x₂' hlt hx₁ hx₂ hkey => ?_⟩
  · obtain ⟨x, hx, hxkey⟩ := h.entry key e' he'
    obtain ⟨x', hx', hxkey', -⟩ := hnew hx
    exact ⟨x', hx', hxkey'.trans hxkey⟩
  · obtain ⟨x, hx, hxkey, -⟩ := hback hx₁
    exact h.latest key e' he' e₁ x hx (hxkey.symm.trans hkey)
  · obtain ⟨x, hx, ⟨-, rfl⟩ | ⟨-, rfl⟩⟩ := modify_getElem? hx'
    · simp at hfinished
    · exact h.pending e' _ hx hfinished
  · obtain ⟨x', hx', hfinished⟩ := outcome_eq_some.1 hp
    obtain ⟨x, hx, ⟨-, rfl⟩ | ⟨-, rfl⟩⟩ := modify_getElem? hx'
    · obtain rfl := Option.some.inj hfinished
      exact htime
    · exact h.past e' p (outcome_eq_some.2 ⟨_, hx, hfinished⟩)
  · obtain ⟨x, hx, hxkey⟩ := h.served i c hc
    obtain ⟨x', hx', hxkey', -⟩ := hnew hx
    exact ⟨x', hx', hxkey'.trans hxkey⟩
  · obtain ⟨f, hf⟩ := h.received i c out' hc hphase
    exact ⟨f, hkept hf⟩
  · obtain ⟨y₁, hy₁, hykey₁, -⟩ := hback hx₁
    obtain ⟨y₂, hy₂, hykey₂, hystart₂⟩ := hback hx₂
    obtain ⟨p, hp, hbefore⟩ := h.apart e₁ e₂ y₁ y₂ hlt hy₁ hy₂ (by rw [← hykey₁, ← hykey₂, hkey])
    obtain ⟨x', hx', -, -, hfinished'⟩ := hnew hy₁
    obtain rfl := Option.some.inj (hx'.symm.trans hx₁)
    exact ⟨p, hfinished' p hp, by rw [hystart₂]; exact hbefore⟩

/-- A caller in flight goes on: with the outcome of its execution, or it is over. -/
theorem Regular.setPhase (h : Regular s) {i : ℕ} {c : Caller T} {phase : Phase T}
    (hc : s.callers[i]? = some c) (hflight : c.InFlight)
    (hphase : ∀ out, (phase = .ready out ∨ ∃ time, phase = .returned time out) →
      ∃ f, s.outcome c.execution = some (f, out)) : Regular (s.setPhase i phase) := by
  -- who is in flight now, was before
  have hback : ∀ {j : ℕ} {d' : Caller T}, (s.setPhase i phase).callers[j]? = some d' →
      ∃ d, s.callers[j]? = some d ∧ d'.key = d.key ∧ d'.execution = d.execution ∧
        d'.leader = d.leader ∧ d'.startedAt = d.startedAt ∧ (d'.InFlight → d.InFlight) ∧
        ((i = j ∧ d'.phase = phase) ∨ d'.phase = d.phase) := by
    intro j d' hd'
    obtain ⟨d, hd, ⟨hij, rfl⟩ | ⟨-, rfl⟩⟩ := modify_getElem? hd'
    · subst hij
      obtain rfl := Option.some.inj (hd.symm.trans hc)
      exact ⟨d, hd, rfl, rfl, rfl, rfl, fun _ => hflight, .inl ⟨rfl, rfl⟩⟩
    · exact ⟨_, hd, rfl, rfl, rfl, rfl, id, .inr rfl⟩
  refine ⟨h.entry, h.latest, h.pending, h.past, fun j d' hd' => ?_, fun j d' hd' => ?_,
    fun j d' out hd' hout => ?_, fun j d' hd' hlead hfl => ?_,
    fun j k d' e' hd' he' hlead hlead' hfl hfl' hkey => ?_, h.apart⟩
  · obtain ⟨d, hd, -, -, -, hstart, -⟩ := hback hd'
    rw [hstart]
    exact h.started j d hd
  · obtain ⟨d, hd, hkey, hexec, -⟩ := hback hd'
    rw [hkey, hexec]
    exact h.served j d hd
  · obtain ⟨d, hd, -, hexec, -, -, -, ⟨hij, hp⟩ | hp⟩ := hback hd'
    · subst hij
      obtain rfl := Option.some.inj (hd.symm.trans hc)
      rw [hp] at hout
      rw [hexec]
      exact hphase out hout
    · rw [hp] at hout
      rw [hexec]
      exact h.received j d out hd hout
  · obtain ⟨d, hd, hkey, hexec, hleader, -, hfl', -⟩ := hback hd'
    rw [hkey, hexec]
    exact h.leads j d hd (hleader ▸ hlead) (hfl' hfl)
  · obtain ⟨d, hd, hkeyd, -, hleadd, -, hfld, -⟩ := hback hd'
    obtain ⟨e, he, hkeye, -, hleade, -, hfle, -⟩ := hback he'
    exact h.sole j k d e hd he (hleadd ▸ hlead) (hleade ▸ hlead') (hfld hfl) (hfle hfl')
      (by rw [← hkeyd, ← hkeye, hkey])

/-- The entry of an execution that is over, and that no caller in flight leads, is removed. -/
theorem Regular.removeEntry (h : Regular s) {key : String}
    (hover : ∀ e, s.map key = some e → s.outcome e ≠ none)
    (hled : ∀ (i : ℕ) (c : Caller T), s.callers[i]? = some c → c.leader = true → c.InFlight →
      c.key ≠ key) : Regular (s.removeEntry key) := by
  have hother : ∀ {k}, k ≠ key → (s.removeEntry key).map k = s.map k := fun hk =>
    Function.update_of_ne hk _ _
  have hold : ∀ {k e}, (s.removeEntry key).map k = some e → s.map k = some e := by
    intro k e he
    by_cases hk : k = key
    · have hmap : (s.removeEntry key).map key = none := by
        unfold Flights.removeEntry
        simp
      rw [hk, hmap] at he
      simp at he
    · rwa [hother hk] at he
  refine { h with
    entry := fun k e he => ?_
    latest := fun k e he => ?_
    pending := fun e x hx hpending => ?_
    leads := fun i c hc hlead hflight => ?_ }
  · exact h.entry k e (hold he)
  · exact h.latest k e (hold he)
  · have hmap := h.pending e x hx hpending
    have hk : x.key ≠ key := by
      intro hk
      rw [hk] at hmap
      refine hover e hmap ?_
      unfold outcome
      rw [show s.executions[e]? = some x from hx]
      exact hpending
    rw [hother hk]
    exact hmap
  · rw [hother (hled i c hc hlead hflight)]
    exact h.leads i c hc hlead hflight

/-! ## Steps -/

/-- The time passes. -/
def tick (s : Flights T) : Flights T := { s with clock := s.clock + 1 }

/-- What a move does. -/
inductive Does (s : Flights T) : FlightMove T → Flights T → Prop
  | nothing (move : FlightMove T) : Does s move s.tick
  | join (key : String) (e : ℕ) (hentry : s.map key = some e) : Does s (.start key)
      (s.tick.addCaller { key := key, execution := e, leader := false, startedAt := s.clock })
  | lead (key : String) (hentry : s.map key = none) : Does s (.start key)
      ((s.tick.addExecution { key := key, startedAt := s.clock }).addCaller
        { key := key, execution := s.executions.length, leader := true, startedAt := s.clock })
  | ready (i : ℕ) (x : Option T) (c : Caller T) (time : ℕ) (out : T) (hc : s.callers[i]? = some c)
      (hwaiting : c.phase = .waiting) (hout : s.outcome c.execution = some (time, out)) :
      Does s (.poll i x) (s.tick.setPhase i (.ready out))
  | complete (i : ℕ) (c : Caller T) (out : T) (hc : s.callers[i]? = some c)
      (hwaiting : c.phase = .waiting) (hpending : s.outcome c.execution = none) :
      Does s (.poll i (some out))
        ((s.tick.finishAt c.execution s.clock out).setPhase i (.ready out))
  | follow (i : ℕ) (c : Caller T) (out : T) (hc : s.callers[i]? = some c)
      (hready : c.phase = .ready out) (hleader : c.leader = false) :
      Does s (.finish i) (s.tick.setPhase i (.returned s.clock out))
  | clean (i : ℕ) (c : Caller T) (out : T) (hc : s.callers[i]? = some c)
      (hready : c.phase = .ready out) (hleader : c.leader = true) :
      Does s (.finish i) ((s.tick.setPhase i (.returned s.clock out)).removeEntry c.key)
  | drop (i : ℕ) (c : Caller T) (hc : s.callers[i]? = some c) (hwaiting : c.phase = .waiting) :
      Does s (.drop i) (s.tick.setPhase i .dropped)

theorem step_does (s : Flights T) (move : FlightMove T) : Does s move (s.step move) := by
  cases move with
  | start key =>
    cases hentry : s.map key with
    | none =>
      have hstep : s.step (.start key) = (s.tick.addExecution { key := key, startedAt := s.clock }).addCaller
          { key := key, execution := s.executions.length, leader := true, startedAt := s.clock } := by
        unfold step act start
        simp only [hentry]
        rfl
      rw [hstep]
      exact .lead key hentry
    | some e =>
      have hstep : s.step (.start key) = s.tick.addCaller
          { key := key, execution := e, leader := false, startedAt := s.clock } := by
        unfold step act start
        simp only [hentry]
        rfl
      rw [hstep]
      exact .join key e hentry
  | poll i x =>
    cases hc : s.callers[i]? with
    | none =>
      have hstep : s.step (.poll i x) = s.tick := by simp only [step, act, hc, tick]
      rw [hstep]
      exact .nothing _
    | some c =>
      cases hwaiting : c.phase with
      | waiting =>
        cases hout : s.outcome c.execution with
        | some p =>
          have hstep : s.step (.poll i x) = s.tick.setPhase i (.ready p.2) := by
            simp only [step, act, hc, hwaiting, if_true, poll, hout]
            rfl
          rw [hstep]
          exact .ready i x c p.1 p.2 hc hwaiting hout
        | none =>
          cases x with
          | none =>
            have hstep : s.step (.poll i none) = s.tick := by
              simp only [step, act, hc, hwaiting, if_true, poll, hout, tick]
            rw [hstep]
            exact .nothing _
          | some out =>
            have hstep : s.step (.poll i (some out)) =
                (s.tick.finishAt c.execution s.clock out).setPhase i (.ready out) := by
              simp only [step, act, hc, hwaiting, if_true, poll, hout]
              rfl
            rw [hstep]
            exact .complete i c out hc hwaiting hout
      | ready out | returned time out | dropped =>
        have hstep : s.step (.poll i x) = s.tick := by simp [step, act, hc, hwaiting, tick]
        rw [hstep]
        exact .nothing _
  | finish i =>
    cases hc : s.callers[i]? with
    | none =>
      have hstep : s.step (.finish i) = s.tick := by simp only [step, act, hc, tick]
      rw [hstep]
      exact .nothing _
    | some c =>
      cases hphase : c.phase with
      | ready out =>
        cases hleader : c.leader with
        | true =>
          have hstep : s.step (.finish i) =
              (s.tick.setPhase i (.returned s.clock out)).removeEntry c.key := by
            simp only [step, act, hc, hphase, finish, hleader, if_true]
            rfl
          rw [hstep]
          exact .clean i c out hc hphase hleader
        | false =>
          have hstep : s.step (.finish i) = s.tick.setPhase i (.returned s.clock out) := by
            simp [step, act, hc, hphase, finish, hleader]
            rfl
          rw [hstep]
          exact .follow i c out hc hphase hleader
      | waiting | returned time out | dropped =>
        have hstep : s.step (.finish i) = s.tick := by simp only [step, act, hc, hphase, tick]
        rw [hstep]
        exact .nothing _
  | drop i =>
    cases hc : s.callers[i]? with
    | none =>
      have hstep : s.step (.drop i) = s.tick := by simp only [step, act, hc, tick]
      rw [hstep]
      exact .nothing _
    | some c =>
      cases hphase : c.phase with
      | waiting =>
        have hstep : s.step (.drop i) = s.tick.setPhase i .dropped := by
          simp only [step, act, hc, hphase, if_true]
          rfl
        rw [hstep]
        exact .drop i c hc hphase
      | ready out | returned time out | dropped =>
        have hstep : s.step (.drop i) = s.tick := by simp [step, act, hc, hphase, tick]
        rw [hstep]
        exact .nothing _

theorem Regular.step (h : Regular s) (move : FlightMove T) : Regular (s.step move) := by
  have htick : Regular s.tick := h.tick
  have hdoes := step_does s move
  generalize s.step move = s' at hdoes ⊢
  cases hdoes with
  | nothing => exact htick
  | join key e hentry =>
    exact htick.addCaller (Nat.lt_succ_self _) rfl (h.entry key e hentry)
      (fun hlead => absurd hlead (by simp)) fun hlead => absurd hlead (by simp)
  | lead key hentry =>
    have hnew : Regular (s.tick.addExecution { key := key, startedAt := s.clock }) :=
      htick.addExecution hentry rfl h.past
    refine hnew.addCaller (Nat.lt_succ_self _) rfl ⟨{ key := key, startedAt := s.clock }, ?_, rfl⟩
      (fun _ => ?_) fun _ i d hd hlead hflight hkey => ?_
    · show (s.executions ++ [_])[s.executions.length]? = _
      simp
    · unfold Flights.addExecution Flights.tick
      simp
    · have hmap := h.leads i d hd hlead hflight
      rw [hkey, hentry] at hmap
      simp at hmap
  | ready i x c time out hc hwaiting hout =>
    refine htick.setPhase hc (.inl hwaiting) fun out' hphase => ?_
    rcases hphase with hphase | ⟨t, hphase⟩
    · obtain rfl := Phase.ready.inj hphase
      exact ⟨time, hout⟩
    · simp at hphase
  | complete i c out hc hwaiting hpending =>
    have hover : Regular (s.tick.finishAt c.execution s.clock out) :=
      htick.finishAt (Nat.lt_succ_self _) hpending
    refine hover.setPhase hc (.inl hwaiting) fun out' hphase => ?_
    rcases hphase with hphase | ⟨t, hphase⟩
    · obtain rfl := Phase.ready.inj hphase
      obtain ⟨x, hx, -⟩ := h.served i c hc
      refine ⟨s.clock, outcome_eq_some.2 ⟨{ x with finished := some (s.clock, out) }, ?_, rfl⟩⟩
      have hx' := getElem?_modify_of (fun x => { x with finished := some (s.clock, out) })
        c.execution hx
      rw [if_pos rfl] at hx'
      exact hx'
    · simp at hphase
  | follow i c out hc hready hleader =>
    refine htick.setPhase hc (.inr ⟨out, hready⟩) fun out' hphase => ?_
    rcases hphase with hphase | ⟨t, hphase⟩
    · simp at hphase
    · obtain ⟨-, rfl⟩ := Phase.returned.inj hphase
      exact h.received i c out hc (.inl hready)
  | clean i c out hc hready hleader =>
    have hreturned : Regular (s.tick.setPhase i (.returned s.clock out)) := by
      refine htick.setPhase hc (.inr ⟨out, hready⟩) fun out' hphase => ?_
      rcases hphase with hphase | ⟨t, hphase⟩
      · simp at hphase
      · obtain ⟨-, rfl⟩ := Phase.returned.inj hphase
        exact h.received i c out hc (.inl hready)
    have hflight : c.InFlight := .inr ⟨out, hready⟩
    refine hreturned.removeEntry (fun e he => ?_) fun j d' hd' hlead hfl hkey => ?_
    · -- the entry is that of the leader's own execution
      have hmap : s.map c.key = some e := he
      obtain rfl := Option.some.inj ((h.leads i c hc hleader hflight).symm.trans hmap)
      obtain ⟨f, hf⟩ := h.received i c out hc (.inl hready)
      rw [show (s.tick.setPhase i (.returned s.clock out)).outcome c.execution = some (f, out) from hf]
      simp
    · obtain ⟨d, hd, ⟨-, rfl⟩ | ⟨hne, rfl⟩⟩ := modify_getElem? hd'
      · rcases hfl with hfl | ⟨o, hfl⟩ <;> simp at hfl
      · exact hne (h.sole i j c _ hc hd hleader hlead hflight hfl hkey.symm)
  | drop i c hc hwaiting =>
    refine htick.setPhase hc (.inl hwaiting) fun out' hphase => ?_
    rcases hphase with hphase | ⟨t, hphase⟩ <;> simp at hphase

theorem regular_empty : Regular ({} : Flights T) := by
  refine ⟨?_, ?_, ?_, ?_, ?_, ?_, ?_, ?_, ?_, ?_⟩ <;> intros <;> simp_all [outcome]

/-! ## Orderly runs -/

/-- No leader is dropped, and no caller starts on an execution that is over once a call of its key
has returned since. -/
def Orderly (s : Flights T) : FlightMove T → Prop
  | .start key => ∀ e ∈ s.map key, ∀ p ∈ s.outcome e, ∀ c ∈ s.callers, c.key = key →
      ∀ t ∈ c.returnedAt, t < p.1
  | .drop i => ∀ c ∈ s.callers[i]?, c.phase = .waiting → c.leader = false
  | _ => True

instance [DecidableEq T] (s : Flights T) : ∀ move, Decidable (Orderly s move)
  | .start key => inferInstanceAs (Decidable (∀ e ∈ s.map key, ∀ p ∈ s.outcome e, ∀ c ∈ s.callers, _))
  | .drop i => inferInstanceAs (Decidable (∀ c ∈ s.callers[i]?, _))
  | .poll _ _ | .finish _ => isTrue trivial

/-- An entry has its leader in flight. -/
def Led (s : Flights T) : Prop :=
  ∀ key e, s.map key = some e → ∃ (i : ℕ) (c : Caller T), s.callers[i]? = some c ∧
    c.leader = true ∧ c.InFlight ∧ c.key = key

/-- No call of its key returned between the end of its execution and the start of a caller. -/
def Fresh (s : Flights T) : Prop :=
  ∀ (i : ℕ) (c : Caller T), s.callers[i]? = some c → ∀ p, s.outcome c.execution = some p →
    p.1 < c.startedAt → ∀ (j : ℕ) (d : Caller T), s.callers[j]? = some d → d.key = c.key →
      ∀ t ∈ d.returnedAt, t < p.1 ∨ c.startedAt ≤ t

theorem Led.addCaller (h : Led s) (c : Caller T) : Led (s.addCaller c) := by
  intro key e he
  obtain ⟨i, d, hd, hleads⟩ := h key e he
  exact ⟨i, d, (List.getElem?_append_left (List.getElem?_eq_some_iff.1 hd).1).trans hd, hleads⟩

/-- A leader stays in flight; any other caller may be over. -/
theorem Led.setPhase (h : Led s) {i : ℕ} {c : Caller T} {phase : Phase T}
    (hc : s.callers[i]? = some c)
    (hphase : c.leader = false ∨ ({ c with phase := phase } : Caller T).InFlight) :
    Led (s.setPhase i phase) := by
  intro key e he
  obtain ⟨j, d, hd, hlead, hflight, hkey⟩ := h key e he
  have hd' : (s.setPhase i phase).callers[j]? =
      some (if i = j then { d with phase := phase } else d) := getElem?_modify_of _ i hd
  refine ⟨j, _, hd', ?_⟩
  by_cases hij : i = j
  · subst hij
    obtain rfl := Option.some.inj (hd.symm.trans hc)
    rw [if_pos rfl]
    rcases hphase with hnot | hflight'
    · rw [hlead] at hnot
      simp at hnot
    · exact ⟨hlead, hflight', hkey⟩
  · rw [if_neg hij]
    exact ⟨hlead, hflight, hkey⟩

theorem Fresh.addCaller (h : Fresh s) {c : Caller T} (hwaiting : c.phase = .waiting)
    (hfresh : ∀ p, s.outcome c.execution = some p → p.1 < c.startedAt →
      ∀ d ∈ s.callers, d.key = c.key → ∀ t ∈ d.returnedAt, t < p.1 ∨ c.startedAt ≤ t) :
    Fresh (s.addCaller c) := by
  intro i d hd p hp hlate j d' hd' hkey t ht
  rcases append_getElem? hd' with hold' | ⟨-, heq'⟩
  · rcases append_getElem? hd with hold | ⟨-, heq⟩
    · exact h i d hold p hp hlate j d' hold' hkey t ht
    · rw [heq] at hp hlate hkey ⊢
      exact hfresh p hp hlate d' (List.mem_of_getElem? hold') hkey t ht
  · rw [heq'] at ht
    unfold Caller.returnedAt at ht
    rw [hwaiting] at ht
    simp at ht

theorem Fresh.setPhase (h : Fresh s) {i : ℕ} {phase : Phase T}
    (hphase : ∀ time out, phase = .returned time out → ∀ d ∈ s.callers, d.startedAt ≤ time) :
    Fresh (s.setPhase i phase) := by
  intro j c' hc' p hp hlate k d' hd' hkey t ht
  have hback : ∃ c, s.callers[j]? = some c ∧ c'.key = c.key ∧ c'.execution = c.execution ∧
      c'.startedAt = c.startedAt := by
    obtain ⟨c, hc, ⟨-, rfl⟩ | ⟨-, rfl⟩⟩ := modify_getElem? hc'
    · exact ⟨c, hc, rfl, rfl, rfl⟩
    · exact ⟨_, hc, rfl, rfl, rfl⟩
  obtain ⟨c, hc, hckey, hexec, hstart⟩ := hback
  rw [hexec] at hp
  rw [hstart] at hlate ⊢
  rw [hckey] at hkey
  obtain ⟨d, hd, ⟨-, rfl⟩ | ⟨-, rfl⟩⟩ := modify_getElem? hd'
  · -- a return that is made now is after all starts
    cases hp' : phase with
    | returned time out =>
      rw [hp'] at ht
      obtain rfl := Option.some.inj ht
      exact .inr (hphase _ out hp' c (List.mem_of_getElem? hc))
    | waiting | ready out | dropped =>
      rw [hp'] at ht
      simp [Caller.returnedAt] at ht
  · exact h j c hc p hp hlate k _ hd hkey t ht

theorem orderly_step (hled : Led s) (hfresh : Fresh s) (h : Regular s) (move : FlightMove T)
    (horderly : Orderly s move) : Led (s.step move) ∧ Fresh (s.step move) := by
  have hdoes := step_does s move
  generalize s.step move = s' at hdoes ⊢
  cases hdoes with
  | nothing => exact ⟨hled, hfresh⟩
  | join key e hentry =>
    refine ⟨Led.addCaller (s := s.tick) hled _, Fresh.addCaller (s := s.tick) hfresh rfl ?_⟩
    intro p hp _ d hd hkey t ht
    exact .inl (horderly e hentry p hp d hd hkey t ht)
  | lead key hentry =>
    have houtcome : ∀ {e p}, (s.tick.addExecution { key := key, startedAt := s.clock }).outcome e =
        some p → s.outcome e = some p := by
      intro e p hp
      obtain ⟨y, hy, hfinished⟩ := outcome_eq_some.1 hp
      rcases append_getElem? hy with hy | ⟨-, rfl⟩
      · exact outcome_eq_some.2 ⟨y, hy, hfinished⟩
      · simp at hfinished
    refine ⟨fun k e he => ?_, Fresh.addCaller ?_ rfl ?_⟩
    · by_cases hkey : k = key
      · subst hkey
        refine ⟨s.callers.length,
          { key := k, execution := s.executions.length, leader := true, startedAt := s.clock },
          ?_, rfl, .inl rfl, rfl⟩
        show (s.callers ++ [_])[s.callers.length]? = _
        simp
      · have he' : s.map k = some e := by
          rw [← he]
          exact (Function.update_of_ne hkey _ _).symm
        exact Led.addCaller (s := s.tick) hled _ k e he'
    · intro i c hc p hp
      exact hfresh i c hc p (houtcome hp)
    · -- the new execution is not over
      intro p hp
      obtain ⟨y, hy, -⟩ := outcome_eq_some.1 (houtcome hp)
      obtain ⟨hlt, -⟩ := List.getElem?_eq_some_iff.1 hy
      simp at hlt
  | ready i x c time out hc hwaiting hout =>
    exact ⟨Led.setPhase (s := s.tick) hled hc (.inr (.inr ⟨out, rfl⟩)),
      Fresh.setPhase (s := s.tick) hfresh fun _ _ hphase => by simp at hphase⟩
  | complete i c out hc hwaiting hpending =>
    refine ⟨Led.setPhase (s := s.tick.finishAt c.execution s.clock out) hled hc (.inr (.inr ⟨out, rfl⟩)),
      Fresh.setPhase (s := s.tick.finishAt c.execution s.clock out) ?_ fun _ _ hphase => by
        simp at hphase⟩
    intro j d hd p hp hlate
    obtain ⟨x', hx', hfinished⟩ := outcome_eq_some.1 hp
    obtain ⟨x, hx, ⟨-, rfl⟩ | ⟨-, rfl⟩⟩ := modify_getElem? hx'
    · -- the execution ends after all callers have started
      obtain rfl := Option.some.inj hfinished
      have := h.started j d hd
      exact absurd hlate (by simp only; omega)
    · exact hfresh j d hd p (outcome_eq_some.2 ⟨_, hx, hfinished⟩) hlate
  | follow i c out hc hready hleader =>
    refine ⟨Led.setPhase (s := s.tick) hled hc (.inl hleader),
      Fresh.setPhase (s := s.tick) hfresh fun time out' hphase d hd => ?_⟩
    obtain ⟨rfl, -⟩ := Phase.returned.inj hphase
    obtain ⟨j, hj⟩ := List.mem_iff_getElem?.1 hd
    exact (h.started j d hj).le
  | clean i c out hc hready hleader =>
    refine ⟨fun k e he => ?_, Fresh.setPhase (s := s.tick) hfresh fun time out' hphase d hd => ?_⟩
    · have hk : k ≠ c.key := by
        rintro rfl
        have hnone : ((s.tick.setPhase i (.returned s.clock out)).removeEntry c.key).map c.key =
            none := by
          unfold Flights.removeEntry
          simp
        rw [hnone] at he
        simp at he
      have he' : s.map k = some e := by
        rw [← he]
        exact (Function.update_of_ne hk _ _).symm
      obtain ⟨j, d, hd, hlead, hflight, hkey⟩ := hled k e he'
      have hij : i ≠ j := by
        rintro rfl
        obtain rfl := Option.some.inj (hd.symm.trans hc)
        exact hk hkey.symm
      refine ⟨j, d, ?_, hlead, hflight, hkey⟩
      have hd' := getElem?_modify_of (fun c => { c with phase := .returned s.clock out }) i hd
      rw [if_neg hij] at hd'
      exact hd'
    · obtain ⟨rfl, -⟩ := Phase.returned.inj hphase
      obtain ⟨j, hj⟩ := List.mem_iff_getElem?.1 hd
      exact (h.started j d hj).le
  | drop i c hc hwaiting =>
    exact ⟨Led.setPhase (s := s.tick) hled hc (.inl (horderly c hc hwaiting)),
      Fresh.setPhase (s := s.tick) hfresh fun _ _ hphase => by simp at hphase⟩

/-! ## Coalesced requests -/

/-- **What single-flight promises.** -/
structure Coalesced (s : Flights T) : Prop where
  /-- A call gets the outcome of an execution that was not over when the call started, or that no
  call of its key returned from in between. -/
  current : ∀ c ∈ s.callers, ∀ time out, c.phase = .returned time out →
    ∃ x, s.executions[c.execution]? = some x ∧ x.key = c.key ∧
      ∃ ended, x.finished = some (ended, out) ∧ (c.startedAt ≤ ended ∨ ∀ d ∈ s.callers, d.key = c.key → ∀ t ∈ d.returnedAt,
        t < ended ∨ c.startedAt ≤ t)
  /-- Executions of one key do not overlap. -/
  apart : ∀ (e e' : ℕ) (x x' : Execution T), e < e' → s.executions[e]? = some x →
    s.executions[e']? = some x' → x.key = x'.key → ∃ ended, x.finished = some ended ∧
      ended.1 < x'.startedAt
  /-- When the last execution of a key is over and its callers are, the next caller starts a new
  one. -/
  replaced : ∀ (e : ℕ) (x : Execution T), s.executions[e]? = some x → x.finished ≠ none →
    (∀ c ∈ s.callers, c.execution = e → ¬ c.InFlight) →
    (∀ (e' : ℕ) (x' : Execution T), s.executions[e']? = some x' → x'.key = x.key → e' ≤ e) →
    (s.step (.start x.key)).executions = s.executions ++ [{ key := x.key, startedAt := s.clock }] ∧
    (s.step (.start x.key)).callers = s.callers ++
      [{ key := x.key, execution := s.executions.length, leader := true, startedAt := s.clock }]

theorem Regular.coalesced (h : Regular s) (hled : Led s) (hfresh : Fresh s) : Coalesced s where
  current c hc time out hreturned := by
    obtain ⟨i, hi⟩ := List.mem_iff_getElem?.1 hc
    obtain ⟨ended, hover⟩ := h.received i c out hi (.inr ⟨time, hreturned⟩)
    obtain ⟨x, hx, hkey⟩ := h.served i c hi
    obtain ⟨x', hx', hfinished⟩ := outcome_eq_some.1 hover
    obtain rfl := Option.some.inj (hx.symm.trans hx')
    refine ⟨x, hx, hkey, ended, hfinished, ?_⟩
    by_cases hlate : ended < c.startedAt
    · right
      intro d hd hdkey t ht
      obtain ⟨j, hj⟩ := List.mem_iff_getElem?.1 hd
      exact hfresh i c hi (ended, out) hover hlate j d hj hdkey t ht
    · exact .inl (by omega)
  apart := h.apart
  replaced e x hx hfinished hcallers hlatest := by
    have hentry : s.map x.key = none := by
      cases hentry : s.map x.key with
      | none => rfl
      | some e' =>
        -- the entry is that of the last execution, and its leader is in flight
        obtain ⟨y, hy, hykey⟩ := h.entry _ _ hentry
        have hle := hlatest e' y hy hykey
        have hge := h.latest _ _ hentry e x hx rfl
        obtain rfl : e = e' := by omega
        obtain ⟨i, c, hc, hlead, hflight, hkey⟩ := hled _ _ hentry
        have hexec := h.leads i c hc hlead hflight
        rw [hkey, hentry] at hexec
        exact absurd hflight (hcallers c (List.mem_of_getElem? hc) (Option.some.inj hexec).symm)
    unfold Flights.step act start
    simp only [hentry]
    exact ⟨trivial, trivial⟩

/-- **No call is served from the past**, in every run whose moves are orderly. -/
theorem coalesced_orderly (moves : List (FlightMove T))
    (horderly : Run.Along step Orderly {} moves) : Coalesced (Run.run step {} moves) := by
  have hinvariant : Regular (Run.run step {} moves) ∧ Led (Run.run step {} moves) ∧
      Fresh (Run.run step {} moves) := by
    refine Run.run_invariant_along (I := fun s => Regular s ∧ Led s ∧ Fresh s)
      (fun s move hok hs => ?_) moves {} horderly ⟨regular_empty, ?_, ?_⟩
    · obtain ⟨hregular, hled, hfresh⟩ := hs
      exact ⟨hregular.step move, orderly_step hled hfresh hregular move hok⟩
    · intro key e he
      simp at he
    · intro i c hc
      simp at hc
  exact hinvariant.1.coalesced hinvariant.2.1 hinvariant.2.2

/-- A leader and a follower of one execution, and a caller of the next one. -/
theorem follower_coalesced : Coalesced (Run.run step {}
    [.start "quote|600519", .start "quote|600519", .poll 0 none, .poll 0 (some 1), .finish 0,
      .poll 1 none, .finish 1, .start "quote|600519"] : Flights ℕ) :=
  coalesced_orderly _ (by decide)

/-- **A dropped leader** leaves its execution behind: once that is over, it serves every later
call. -/
theorem droppedLeader_stale : ¬ ∀ moves : List (FlightMove ℕ), Coalesced (Run.run step {} moves) := by
  intro h
  have hcurrent := (h [.start "quote|600519", .start "quote|600519", .drop 0, .poll 1 (some 1),
    .finish 1, .start "quote|600519", .poll 2 none, .finish 2]).current
  have hlast := hcurrent ⟨"quote|600519", 0, false, 5, .returned 7 1⟩ (by decide) 7 1 rfl
  obtain ⟨x, hx, -, ended, hover, hcase⟩ := hlast
  have hx' : some (⟨"quote|600519", 0, some (3, 1)⟩ : Execution ℕ) = some x := by
    rw [← hx]
    decide
  obtain rfl := Option.some.inj hx'
  obtain rfl : 3 = ended := (Prod.mk.inj (Option.some.inj hover)).1
  rcases hcase with hstarted | hreturns
  · simp at hstarted
  · have hfollower := hreturns ⟨"quote|600519", 0, false, 1, .returned 4 1⟩ (by decide)
      rfl 4 rfl
    simp at hfollower

end Flights

end Astock
