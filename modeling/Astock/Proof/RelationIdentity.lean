import Astock.Lib.Delimited
import Astock.Proof.Snapshots

/-!
# The identity of a relation

The id of a relation is a digest of its ends, its kind and its scopes, joined by bars.

* `Plain`: no bar in the ends and scopes, and `keyText_inj`: the text of a plain input has one
  reading.
* `collides_of_bar`: an input with a bar shares its id with another relation.
* `recordRevisionAt_accepts`: no relation stands in the way of a plain one.
* `identity_faithful_iff`: **the ids are faithful exactly for the plain inputs**.
-/

namespace Astock

open Prog

variable {F : Type} {digest : ℕ → String → String} {g g' : GraphStore F}
  {input other : EdgeRevisionInput F}

/-! ## The text under an id -/

/-- What the id of a relation is a digest of. -/
def EdgeRevisionInput.keyText (input : EdgeRevisionInput F) : String :=
  input.edge.src ++ "|" ++ input.edge.dst ++ "|" ++ input.edge.relation.asStr ++ "|" ++
    input.productScope.getD "" ++ "|" ++ input.regionScope.getD ""

theorem identityHash_eq_iff (hdigest : Function.Injective (digest 32)) :
    identityHash digest input = identityHash digest other ↔ input.keyText = other.keyText := by
  constructor
  · intro h
    exact hdigest (Text.length_inj (a := "edge:") rfl h).2
  · intro h
    exact congrArg (fun text => "edge:" ++ digest 32 text) h

/-- The joined fields, as characters. -/
def keyChars (src dst : List Char) (relation : Relation) (product region : List Char) : List Char :=
  src ++ '|' :: (dst ++ '|' :: (relation.asStr.toList ++ '|' :: (product ++ '|' :: region)))

theorem keyText_toList (input : EdgeRevisionInput F) :
    input.keyText.toList = keyChars input.edge.src.toList input.edge.dst.toList input.edge.relation
      (input.productScope.getD "").toList (input.regionScope.getD "").toList := by
  simp [EdgeRevisionInput.keyText, keyChars]

theorem relation_plain (relation : Relation) : '|' ∉ relation.asStr.toList := by
  cases relation <;> decide

theorem relation_asStr_inj {a b : Relation} (h : a.asStr = b.asStr) : a = b := by
  cases a <;> cases b <;> first | rfl | exact absurd h (by decide)

/-- No end and no scope of the input has a bar. -/
def EdgeRevisionInput.Plain (input : EdgeRevisionInput F) : Prop :=
  ∀ text ∈ [input.edge.src, input.edge.dst, input.productScope.getD "", input.regionScope.getD ""],
    '|' ∉ text.toList

/-- The bars of the text are those between the fields and those of the fields. -/
theorem count_keyText (input : EdgeRevisionInput F) : input.keyText.toList.count '|' =
    4 + input.edge.src.toList.count '|' + input.edge.dst.toList.count '|' +
      (input.productScope.getD "").toList.count '|' +
      (input.regionScope.getD "").toList.count '|' := by
  have hrelation := List.count_eq_zero.2 (relation_plain input.edge.relation)
  rw [keyText_toList, keyChars]
  simp only [List.count_append, List.count_cons_self, hrelation]
  omega

theorem plain_iff_count : input.Plain ↔ input.keyText.toList.count '|' = 4 := by
  rw [count_keyText, EdgeRevisionInput.Plain]
  simp only [List.forall_mem_cons, List.not_mem_nil, false_implies, implies_true, and_true,
    ← List.count_eq_zero]
  omega

/-- **A plain text has one reading.** -/
theorem keyText_inj (hplain : input.Plain) (h : input.keyText = other.keyText) :
    (input.identity digest).unique = (other.identity digest).unique := by
  have hother : other.Plain := plain_iff_count.2 (h ▸ plain_iff_count.1 hplain)
  simp only [EdgeRevisionInput.Plain, List.forall_mem_cons] at hplain hother
  obtain ⟨hsrc, hdst, hproduct, -⟩ := hplain
  obtain ⟨hsrc', hdst', hproduct', -⟩ := hother
  simp only [EdgeRevisionInput.keyText, String.append_assoc] at h
  obtain ⟨heqsrc, h⟩ := Text.bar_inj hsrc hsrc' h
  obtain ⟨heqdst, h⟩ := Text.bar_inj hdst hdst' h
  obtain ⟨heqrelation, h⟩ := Text.bar_inj (relation_plain _) (relation_plain _) h
  obtain ⟨heqproduct, heqregion⟩ := Text.bar_inj hproduct hproduct' h
  simp only [IdentityRow.unique, EdgeRevisionInput.identity, heqsrc, heqdst,
    relation_asStr_inj heqrelation, heqproduct, heqregion]

/-! ## Collisions -/

/-- The input with other ends and scopes. -/
def EdgeRevisionInput.withKey (input : EdgeRevisionInput F) (src dst product region : String) :
    EdgeRevisionInput F :=
  { input with
    edge := { input.edge with src, dst }
    productScope := some product
    regionScope := some region }

theorem cut_at_bar {s : String} (h : '|' ∈ s.toList) :
    ∃ l r : String, s.toList = l.toList ++ '|' :: r.toList ∧ l ≠ s := by
  obtain ⟨l, r, heq⟩ := List.append_of_mem h
  refine ⟨String.ofList l, String.ofList r, by simpa using heq, ?_⟩
  rintro rfl
  have hlen := congrArg List.length heq
  simp at hlen

theorem append_bar_ne (s t : String) : s ++ "|" ++ t ≠ s := by
  intro h
  have hlen := congrArg List.length (congrArg String.toList h)
  simp at hlen

/-- **A bar moves a cut**: the text of an input with a bar is that of another relation. -/
theorem collides_of_bar (h : ¬ input.Plain) : ∃ src dst product region,
    (input.withKey src dst product region).keyText = input.keyText ∧
      (src, dst, product, region) ≠ (input.edge.src, input.edge.dst, input.productScope.getD "",
        input.regionScope.getD "") := by
  simp only [EdgeRevisionInput.Plain, List.forall_mem_cons, List.not_mem_nil, false_implies,
    implies_true, and_true, not_and_or, not_not] at h
  rcases h with h | h | h | h
  · obtain ⟨l, r, heq, hne⟩ := cut_at_bar h
    refine ⟨l, r ++ "|" ++ input.edge.dst, input.productScope.getD "", input.regionScope.getD "",
      String.toList_injective ?_, fun hsame => hne (Prod.mk.inj hsame).1⟩
    simp [keyText_toList, EdgeRevisionInput.withKey, keyChars, heq]
  · obtain ⟨l, r, heq, hne⟩ := cut_at_bar h
    refine ⟨input.edge.src ++ "|" ++ l, r, input.productScope.getD "", input.regionScope.getD "",
      String.toList_injective ?_, fun hsame => ?_⟩
    · simp [keyText_toList, EdgeRevisionInput.withKey, keyChars, heq]
    · exact append_bar_ne _ _ (Prod.mk.inj hsame).1
  · obtain ⟨l, r, heq, hne⟩ := cut_at_bar h
    refine ⟨input.edge.src, input.edge.dst, l, r ++ "|" ++ input.regionScope.getD "",
      String.toList_injective ?_, fun hsame => ?_⟩
    · simp [keyText_toList, EdgeRevisionInput.withKey, keyChars, heq]
    · exact hne (Prod.mk.inj (Prod.mk.inj (Prod.mk.inj hsame).2).2).1
  · obtain ⟨l, r, heq, hne⟩ := cut_at_bar h
    refine ⟨input.edge.src, input.edge.dst, input.productScope.getD "" ++ "|" ++ l, r,
      String.toList_injective ?_, fun hsame => ?_⟩
    · simp [keyText_toList, EdgeRevisionInput.withKey, keyChars, heq]
    · exact append_bar_ne _ _ (Prod.mk.inj (Prod.mk.inj (Prod.mk.inj hsame).2).2).1

/-! ## Recording -/

/-- Every identity on record comes from an input. -/
def GraphStore.FromInputs (digest : ℕ → String → String) (g : GraphStore F) : Prop :=
  ∀ row ∈ g.identities, ∃ input : EdgeRevisionInput F, row = input.identity digest

theorem Ensured.fromInputs {identityId : String} (h : Ensured digest input g identityId g')
    (hg : g.FromInputs digest) : g'.FromInputs digest := by
  cases h with
  | found row _ => exact hg
  | added _ _ =>
    intro row hrow
    rcases List.mem_append.1 hrow with hrow | hrow
    · exact hg row hrow
    · exact ⟨input, List.mem_singleton.1 hrow⟩

theorem Superseded.identities {identityId : String} (h : Superseded input identityId g g') :
    g'.identities = g.identities := by
  cases h with
  | no _ => rfl
  | previous _ _ _ _ _ => rfl

variable [F64 F]

/-- What a call keeps, if all identities before it come from inputs. -/
def KeepsInputs (digest : ℕ → String → String) (g g' : GraphStore F) : Prop :=
  g.FromInputs digest → g'.FromInputs digest

theorem call_keepsInputs (c : GraphCall F) : Steps (KeepsInputs digest) (c.prog digest) := by
  refine call_steps (R := KeepsInputs digest) (fun _ _ _ h h' => h' ∘ h) (fun g g' _ hids hg row hrow => hg row (hids ▸ hrow))
    (fun input g saved g' h hg => ?_) c
  cases h with
  | again identityId g₁ saved hids _ => exact hids.fromInputs hg
  | anew identityId g₁ g₂ saved hids _ hsup _ =>
    intro row hrow
    exact hids.fromInputs hg row (hsup.identities ▸ hrow)

theorem reachable_fromInputs (h : GraphStore.Reachable digest g) : g.FromInputs digest := by
  obtain ⟨calls, rfl⟩ := h
  refine Run.run_invariant (fun g c hg => ?_) calls _ fun _ h => absurd h List.not_mem_nil
  exact call_keepsInputs c g hg

/-- The refusal of a second identity with one id. -/
def identityTaken : GraphError :=
  .storage "sqlite error: UNIQUE constraint failed: graph_edge_identities.identity_id"

omit [F64 F] in
/-- **Where no other relation has the id, it is not refused.** -/
theorem ensureIdentity_accepts (hfree : ∀ row ∈ g.identities,
      row.identityId = identityHash digest input → row.unique = (input.identity digest).unique) :
    Triple (· = g) (ensureIdentity digest input) (fun _ _ => True) fun _ _ => False := by
  unfold ensureIdentity
  refine triple_get_eq ?_
  dsimp only
  split
  · exact triple_pure fun _ _ => trivial
  · rename_i hnone
    have hid : g.identityOf (input.identity digest).identityId = none := by
      refine (Table.find_eq_none _).2 fun row hrow hrowid => ?_
      exact (Table.find_eq_none _).1 hnone row hrow (hfree row hrow hrowid)
    refine triple_guardOr (fun _ => ?_) fun hfalse _ _ => ?_
    · exact triple_set_eq (triple_pure fun _ _ => trivial)
    · rw [hid] at hfalse
      exact nomatch hfalse

theorem storage_ne_taken {message : String} (h : message.toList.head? ≠ some 's') :
    GraphError.storage message ≠ identityTaken := by
  intro heq
  rw [GraphError.storage.inj heq] at h
  exact h (by decide)

omit [F64 F] in
theorem supersedePrevious_error (input : EdgeRevisionInput F) (identityId : String)
    (g : GraphStore F) : Triple (· = g) (supersedePrevious input identityId) (fun _ _ => True)
      fun e _ => e ≠ identityTaken := by
  unfold supersedePrevious
  split
  · exact triple_pure fun _ _ => trivial
  · refine triple_get_eq ?_
    split
    · exact triple_throw fun _ _ => storage_ne_taken (by simp)
    · refine triple_guardOr (fun _ => ?_) fun _ _ _ heq => ?_
      · exact fun _ _ => trivial
      · exact absurd (GraphError.storage.inj heq) (by decide)

omit [F64 F] in
theorem requireNodes_error (first second : String) (g : GraphStore F) :
    Triple (· = g) (requireNodes first second) (fun _ g' => g' = g) fun e _ => e ≠ identityTaken := by
  unfold requireNodes
  refine triple_get_eq (triple_guardOr (fun _ => ?_) fun _ _ _ => nofun)
  intro s hs
  rw [exec_guardOr]
  cases (g.node second).isSome with
  | true => exact hs
  | false => exact nofun

/-- **A revision is never refused for its id** where no other relation has it. -/
theorem recordRevisionAt_accepts (hvalid : validateRevisionInput input = .ok ()) (hfree : ∀ row ∈ g.identities,
      row.identityId = identityHash digest input → row.unique = (input.identity digest).unique) :
    Triple (· = g) (recordRevisionAt digest input) (fun _ _ => True)
      fun e _ => e ≠ identityTaken := by
  have hinsert : Triple (· = g) (insertRevision digest input) (fun _ _ => True)
      fun e _ => e ≠ identityTaken := by
    unfold insertRevision
    refine triple_bind ((ensureIdentity_accepts hfree).conseq (fun _ h => h) (fun _ _ h => h)
      fun _ _ h => h.elim) fun identityId => triple_each fun g₁ _ => triple_get_eq ?_
    split
    · exact triple_pure fun _ _ => trivial
    · refine triple_get_eq (triple_bind (supersedePrevious_error input identityId g₁) fun _ =>
        triple_each fun g₂ _ => triple_modify_eq (triple_get_eq ?_))
      split
      · exact triple_pure fun _ _ => trivial
      · exact triple_throw fun _ _ => storage_ne_taken (by simp)
  unfold recordRevisionAt
  rw [hvalid]
  refine triple_bind (requireNodes_error _ _ g) fun _ => ?_
  exact (triple_atomically hinsert).conseq (fun _ h => h) (fun _ _ h => h) fun _ _ h => h.1

/-- **The ids are faithful exactly for inputs without bars**: no other relation has the id, and
recording is never refused for it. -/
theorem identity_faithful_iff (digest : ℕ → String → String)
    (hdigest : Function.Injective (digest 32)) (input : EdgeRevisionInput F)
    (hvalid : validateRevisionInput input = .ok ()) :
    ((∀ other : EdgeRevisionInput F, validateRevisionInput other = .ok () →
        (identityHash digest input = identityHash digest other ↔
          (input.identity digest).unique = (other.identity digest).unique)) ∧
      ∀ g : GraphStore F, g.Reachable digest →
        (exec (recordRevisionAt digest input) g).1 ≠ .error identityTaken) ↔ input.Plain := by
  constructor
  · rintro ⟨hfaithful, -⟩
    by_contra hbar
    obtain ⟨src, dst, product, region, htext, hne⟩ := collides_of_bar hbar
    have hsame := (hfaithful (input.withKey src dst product region) hvalid).1
      ((identityHash_eq_iff hdigest).2 htext.symm)
    simp only [IdentityRow.unique, EdgeRevisionInput.identity, EdgeRevisionInput.withKey,
      Prod.mk.injEq, Option.getD_some] at hsame
    obtain ⟨hsrc, hdst, -, hproduct, hregion⟩ := hsame
    exact hne (by rw [hsrc, hdst, hproduct, hregion])
  · intro hplain
    refine ⟨fun other _ => ⟨fun h => ?_, fun h => ?_⟩, fun g hg herror => ?_⟩
    · exact keyText_inj hplain ((identityHash_eq_iff hdigest).1 h)
    · simp only [IdentityRow.unique, EdgeRevisionInput.identity, Prod.mk.injEq] at h
      obtain ⟨hsrc, hdst, hrelation, hproduct, hregion⟩ := h
      rw [identityHash_eq_iff hdigest, EdgeRevisionInput.keyText, EdgeRevisionInput.keyText, hsrc, hdst,
        hrelation, hproduct, hregion]
    · have hfree : ∀ row ∈ g.identities, row.identityId = identityHash digest input →
          row.unique = (input.identity digest).unique := by
        intro row hrow hid
        obtain ⟨other, rfl⟩ := reachable_fromInputs hg row hrow
        exact (keyText_inj hplain ((identityHash_eq_iff hdigest).1 hid.symm)).symm
      exact (recordRevisionAt_accepts hvalid hfree).error rfl (Prod.ext herror rfl) rfl

/-! ## Two scopes of one supplier -/

/-- The sales of the supplier of one product in one region. -/
def scopedSales (product region : String) : EdgeRevisionInput ℚ :=
  { annualSales "2024" 100 120 130 with productScope := some product, regionScope := some region }

theorem scopedSales_faithful :
    identityHash salesDigest (scopedSales "电缆" "华东") ≠
      identityHash salesDigest (scopedSales "电缆" "华南") := by
  have hplain : (scopedSales "电缆" "华东").Plain := by
    intro text htext
    fin_cases htext <;> decide
  have hfaithful := ((identity_faithful_iff salesDigest (salesDigest_inj 32)
    (scopedSales "电缆" "华东") (by decide +kernel)).2 hplain).1 (scopedSales "电缆" "华南")
      (by decide +kernel)
  intro h
  exact absurd (hfaithful.1 h) (by decide)

/-- Moving a bar from the product to the region keeps the id. -/
theorem barred_scopes_collide : ¬ ∀ (digest : ℕ → String → String),
    Function.Injective (digest 32) → ∀ a b : EdgeRevisionInput ℚ,
      validateRevisionInput a = .ok () → validateRevisionInput b = .ok () →
        (identityHash digest a = identityHash digest b ↔
          (a.identity digest).unique = (b.identity digest).unique) := by
  intro h
  have hiff := h salesDigest (salesDigest_inj 32) (scopedSales "线|缆" "华东")
    (scopedSales "线" "缆|华东") (by decide +kernel) (by decide +kernel)
  exact absurd (hiff.1 (by decide)) (by decide)

end Astock
