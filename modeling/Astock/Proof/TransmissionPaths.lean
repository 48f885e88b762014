import Astock.Spec.Global

/-!
# Transmission paths are the simple paths

`build_paths` is a depth-first enumeration of `Lib/Loop`.

* `IsPath`: what a transmission path is.
* `leaf_iff`: the paths that an entry of the frontier leads to are those that complete it.
* `confidence_le`: a path is at most as sure as each of its relations.
* `build_paths_simple_paths`: **the search ends with exactly the simple paths**, each once, the surest first.
-/

namespace Astock.Global

variable {shortHash : String → String} {entities : String → Option GlobalEntity}
  {relations rs : List GlobalRelation} {maxDepth : ℕ} {root : String} {reached : Reached}
  {path : TransmissionPath} {relation : GlobalRelation} {entity : GlobalEntity} {es : List GlobalEntity}

/-- The product of the confidences, rounded down after each. -/
def flooredProduct (c : ℕ) (rs : List GlobalRelation) : ℕ :=
  rs.foldl (fun c relation => c * relation.confidenceBps.toNat / 10000) c

/-- **A transmission path** from the root: a simple path of the listed relations through known entities to
the first A-share security after the root. -/
structure IsPath (shortHash : String → String) (entities : String → Option GlobalEntity)
    (relations : List GlobalRelation) (maxDepth : ℕ) (root : String) (path : TransmissionPath) : Prop where
  nonempty : path.relations ≠ []
  depth : path.relations.length ≤ maxDepth
  listed : ∀ relation ∈ path.relations, relation ∈ relations
  linked : path.relations.map (·.srcEntityId) = (root :: path.relations.map (·.dstEntityId)).dropLast
  simple : (root :: path.relations.map (·.dstEntityId)).Nodup
  known : path.entities.map some = (root :: path.relations.map (·.dstEntityId)).map entities
  share : ∃ last, path.entities.getLast? = some last ∧ last.isShare ∧ path.targetAShareCode = last.code
  between : ∀ entity ∈ path.entities.tail.dropLast, ¬ entity.isShare
  confidence : path.pathConfidenceBps.toNat = flooredProduct 10000 path.relations
  pathId : path.pathId = pathId shortHash path.relations

/-! ## Confidence -/

theorem nextConfidence_toNat {c : UInt16} (hc : c.toNat ≤ 10000) (relation : GlobalRelation) :
    (nextConfidence c relation).toNat = c.toNat * relation.confidenceBps.toNat / 10000 := by
  have hr := relation.confidence_le
  have hproduct : c.toNat * relation.confidenceBps.toNat ≤ 10000 * 10000 := Nat.mul_le_mul hc hr
  have hwrap : c.toNat * relation.confidenceBps.toNat % 2 ^ 32 = c.toNat * relation.confidenceBps.toNat :=
    Nat.mod_eq_of_lt (by omega)
  have hquotient : c.toNat * relation.confidenceBps.toNat / 10000 < 2 ^ 16 := by omega
  unfold nextConfidence
  rw [UInt32.toNat_toUInt16, UInt32.toNat_div, UInt32.toNat_mul, UInt16.toNat_toUInt32,
    UInt16.toNat_toUInt32, hwrap]
  exact Nat.mod_eq_of_lt hquotient

theorem nextConfidence_le {c : UInt16} (hc : c.toNat ≤ 10000) (relation : GlobalRelation) :
    (nextConfidence c relation).toNat ≤ 10000 := by
  rw [nextConfidence_toNat hc]
  have hproduct := Nat.mul_le_mul hc relation.confidence_le
  omega

/-- **A product** is at most its start and at most each of its factors. -/
theorem flooredProduct_le {c : ℕ} (hc : c ≤ 10000) (rs : List GlobalRelation) :
    flooredProduct c rs ≤ c ∧ ∀ relation ∈ rs, flooredProduct c rs ≤ relation.confidenceBps.toNat := by
  induction rs generalizing c with
  | nil => exact ⟨le_refl c, fun _ h => absurd h List.not_mem_nil⟩
  | cons first rs ih =>
    have hstart : c * first.confidenceBps.toNat / 10000 ≤ c := by
      have hmul := Nat.mul_le_mul_left c first.confidence_le
      omega
    have hfactor : c * first.confidenceBps.toNat / 10000 ≤ first.confidenceBps.toNat := by
      have hmul := Nat.mul_le_mul_right first.confidenceBps.toNat hc
      omega
    obtain ⟨hrest, hfactors⟩ := ih (hstart.trans hc)
    refine ⟨hrest.trans hstart, fun relation hmem => ?_⟩
    rcases List.mem_cons.1 hmem with rfl | hmem
    · exact hrest.trans hfactor
    · exact hfactors relation hmem

/-! ## Below an entry of the frontier -/

/-- A path completes an entry of the frontier with the relations `rs` to the entities `es`. -/
structure Completes (shortHash : String → String) (entities : String → Option GlobalEntity)
    (relations : List GlobalRelation) (reached : Reached) (rs : List GlobalRelation)
    (es : List GlobalEntity) (path : TransmissionPath) : Prop where
  relations_eq : path.relations = reached.relations ++ rs
  entities_eq : path.entities = reached.entities ++ es
  listed : ∀ relation ∈ rs, relation ∈ relations
  linked : rs.map (·.srcEntityId) = (reached.current :: rs.map (·.dstEntityId)).dropLast
  simple : (rs.map (·.dstEntityId)).Nodup
  fresh : ∀ relation ∈ rs, relation.dstEntityId ∉ reached.visited
  known : es.map some = (rs.map (·.dstEntityId)).map entities
  share : ∃ last, es.getLast? = some last ∧ last.isShare ∧ path.targetAShareCode = last.code
  between : ∀ entity ∈ es.dropLast, ¬ entity.isShare
  confidence : path.pathConfidenceBps = rs.foldl nextConfidence reached.confidence
  pathId : path.pathId = pathId shortHash path.relations

/-- The entry one relation on. -/
def Reached.then (reached : Reached) (relation : GlobalRelation) (entity : GlobalEntity) : Reached where
  current := relation.dstEntityId
  entities := reached.entities ++ [entity]
  relations := reached.relations ++ [relation]
  confidence := nextConfidence reached.confidence relation
  visited := relation.dstEntityId :: reached.visited

/-- The path that ends at an entry. -/
def Reached.toPath (shortHash : String → String) (reached : Reached) (entity : GlobalEntity) :
    TransmissionPath where
  pathId := pathId shortHash reached.relations
  entities := reached.entities
  relations := reached.relations
  pathConfidenceBps := reached.confidence
  targetAShareCode := entity.code

theorem follow_eq (shortHash : String → String) (entities : String → Option GlobalEntity) (reached : Reached)
    (relation : GlobalRelation) : follow shortHash entities reached relation =
      if relation.dstEntityId ∈ reached.visited then none
      else (entities relation.dstEntityId).map fun entity =>
        if entity.isShare then .inl ((reached.then relation entity).toPath shortHash entity)
        else .inr (reached.then relation entity) := by
  unfold follow
  split
  · rfl
  · cases entities relation.dstEntityId with
    | none => rfl
    | some entity =>
      rw [Option.map_some]
      dsimp only
      split <;> rfl

/-- What a child of an entry is. -/
theorem mem_expand {child : TransmissionPath ⊕ Reached} :
    child ∈ expand shortHash entities relations maxDepth reached ↔
      reached.relations.length < maxDepth ∧ ∃ relation ∈ relations, ∃ entity,
        relation.srcEntityId = reached.current ∧ relation.dstEntityId ∉ reached.visited ∧
          entities relation.dstEntityId = some entity ∧
            child = if entity.isShare then .inl ((reached.then relation entity).toPath shortHash entity)
              else .inr (reached.then relation entity) := by
  unfold expand
  split
  · next h => exact iff_of_false List.not_mem_nil fun hchild => absurd hchild.1 (by omega)
  · next h =>
    simp only [List.mem_filterMap, List.mem_filter, decide_eq_true_eq, follow_eq]
    constructor
    · rintro ⟨relation, ⟨hmem, hsrc⟩, hfollow⟩
      split at hfollow
      · exact absurd hfollow (by simp)
      · next hfresh =>
        obtain ⟨entity, hentity, hchild⟩ := Option.map_eq_some_iff.1 hfollow
        exact ⟨by omega, relation, hmem, entity, hsrc, hfresh, hentity, hchild.symm⟩
    · rintro ⟨-, relation, hmem, entity, hsrc, hfresh, hentity, hchild⟩
      refine ⟨relation, ⟨hmem, hsrc⟩, ?_⟩
      rw [if_neg hfresh, hentity, Option.map_some, hchild]

theorem not_completes_nil : ¬ Completes shortHash entities relations reached [] es path := by
  intro h
  have hnil : es = [] := List.map_eq_nil_iff.1 h.known
  obtain ⟨last, hlast, -⟩ := h.share
  rw [hnil] at hlast
  exact absurd hlast (by simp)

/-- **The first relation of a completion** leads to a security and ends it, or to another entry that the rest
completes. -/
theorem completes_cons : Completes shortHash entities relations reached (relation :: rs) es path ↔
    relation ∈ relations ∧ relation.srcEntityId = reached.current ∧
      relation.dstEntityId ∉ reached.visited ∧ ∃ entity rest, es = entity :: rest ∧
        entities relation.dstEntityId = some entity ∧
        (entity.isShare ∧ rs = [] ∧ rest = [] ∧ path = (reached.then relation entity).toPath shortHash entity ∨
          ¬ entity.isShare ∧
            Completes shortHash entities relations (reached.then relation entity) rs rest path) := by
  constructor
  · intro h
    have hlinked := h.linked
    have hknown := h.known
    rw [List.map_cons, List.map_cons] at hlinked
    rw [List.map_cons, List.map_cons] at hknown
    obtain ⟨entity, rest, rfl, hentity, hrest⟩ := List.map_eq_cons_iff.1 hknown
    obtain ⟨hsrc, hsrcs⟩ := List.cons.inj hlinked
    refine ⟨h.listed relation List.mem_cons_self, hsrc, h.fresh relation List.mem_cons_self, entity, rest, rfl,
      hentity.symm, ?_⟩
    cases rs with
    | nil =>
      obtain rfl : rest = [] := List.map_eq_nil_iff.1 hrest
      obtain ⟨last, hlast, hshare, hcode⟩ := h.share
      obtain rfl : entity = last := Option.some_injective _ hlast
      refine .inl ⟨hshare, rfl, rfl, ?_⟩
      have hid := h.pathId
      rw [h.relations_eq] at hid
      cases path with
      | mk id pathEntities pathRelations confidence code =>
        obtain rfl : pathRelations = _ := h.relations_eq
        obtain rfl : pathEntities = _ := h.entities_eq
        obtain rfl : confidence = _ := h.confidence
        obtain rfl : code = _ := hcode
        obtain rfl : id = _ := hid
        rfl
    | cons second rs =>
      have hrestne : rest ≠ [] := by
        rintro rfl
        exact absurd hrest (by simp)
      have hshare : ¬ entity.isShare := by
        refine h.between entity ?_
        rw [List.dropLast_cons_of_ne_nil hrestne]
        exact List.mem_cons_self
      refine .inr ⟨hshare, ?_⟩
      have hsimple := h.simple
      rw [List.map_cons, List.nodup_cons] at hsimple
      constructor
      case relations_eq => rw [h.relations_eq, Reached.then, List.append_assoc]; rfl
      case entities_eq => rw [h.entities_eq, Reached.then, List.append_assoc]; rfl
      case listed => exact fun r hr => h.listed r (List.mem_cons_of_mem _ hr)
      case linked => exact hsrcs
      case simple => exact hsimple.2
      case fresh =>
        intro r hr hvisited
        rcases List.mem_cons.1 hvisited with heq | hvisited
        · exact hsimple.1 (heq ▸ List.mem_map_of_mem hr)
        · exact h.fresh r (List.mem_cons_of_mem _ hr) hvisited
      case known => exact hrest
      case share =>
        obtain ⟨last, hlast, hends⟩ := h.share
        rw [List.getLast?_cons_of_ne_nil hrestne] at hlast
        exact ⟨last, hlast, hends⟩
      case between =>
        intro e he
        refine h.between e ?_
        rw [List.dropLast_cons_of_ne_nil hrestne]
        exact List.mem_cons_of_mem _ he
      case confidence => exact h.confidence
      case pathId => exact h.pathId
  · rintro ⟨hmem, hsrc, hfresh, entity, rest, rfl, hentity, hcases⟩
    rcases hcases with ⟨hshare, rfl, rfl, rfl⟩ | ⟨hshare, h⟩
    · constructor
      case relations_eq => rfl
      case entities_eq => rfl
      case listed => simpa using hmem
      case linked => simpa using hsrc
      case simple => exact List.nodup_singleton _
      case fresh => simpa using hfresh
      case known => simp [hentity]
      case share => exact ⟨entity, rfl, hshare, rfl⟩
      case between => simp
      case confidence => rfl
      case pathId => rfl
    · have hrs : rs ≠ [] := by
        rintro rfl
        exact not_completes_nil h
      have hrest : rest ≠ [] := by
        rintro rfl
        exact hrs (List.map_eq_nil_iff.1 (List.map_eq_nil_iff.1 h.known.symm))
      constructor
      case relations_eq => rw [h.relations_eq, Reached.then, List.append_assoc]; rfl
      case entities_eq => rw [h.entities_eq, Reached.then, List.append_assoc]; rfl
      case listed => exact List.forall_mem_cons.2 ⟨hmem, h.listed⟩
      case linked =>
        rw [List.map_cons, List.map_cons, List.dropLast_cons_of_ne_nil (by simp), hsrc, h.linked]
        rfl
      case simple =>
        rw [List.map_cons, List.nodup_cons]
        refine ⟨fun hdst => ?_, h.simple⟩
        obtain ⟨r, hr, heq⟩ := List.mem_map.1 hdst
        exact h.fresh r hr (heq ▸ List.mem_cons_self)
      case fresh =>
        exact List.forall_mem_cons.2 ⟨hfresh, fun r hr hvisited => h.fresh r hr (List.mem_cons_of_mem _ hvisited)⟩
      case known => rw [List.map_cons, List.map_cons, List.map_cons, h.known, hentity]
      case share =>
        obtain ⟨last, hlast, hends⟩ := h.share
        exact ⟨last, by rw [List.getLast?_cons_of_ne_nil hrest, hlast], hends⟩
      case between =>
        rw [List.dropLast_cons_of_ne_nil hrest]
        exact List.forall_mem_cons.2 ⟨hshare, h.between⟩
      case confidence => exact h.confidence
      case pathId => exact h.pathId

/-- **The paths below an entry** are those that complete it within the depth. -/
theorem leaf_iff : Branching.Leaf (expand shortHash entities relations maxDepth) reached path ↔
    ∃ rs es, reached.relations.length + rs.length ≤ maxDepth ∧
      Completes shortHash entities relations reached rs es path := by
  constructor
  · intro h
    induction h with
    | here hchild =>
      obtain ⟨hdepth, relation, hmem, entity, hsrc, hfresh, hentity, hchild⟩ := mem_expand.1 hchild
      split at hchild
      · next hshare =>
        refine ⟨[relation], [entity], by rw [List.length_singleton]; omega, completes_cons.2 ⟨hmem, hsrc, hfresh,
          entity, [], rfl, hentity, .inl ⟨hshare, rfl, rfl, Sum.inl_injective hchild⟩⟩⟩
      · exact absurd hchild (by simp)
    | there hchild _ ih =>
      obtain ⟨hdepth, relation, hmem, entity, hsrc, hfresh, hentity, hchild⟩ := mem_expand.1 hchild
      obtain ⟨rs, es, hlength, hcompletes⟩ := ih
      split at hchild
      · exact absurd hchild (by simp)
      · next hshare =>
        obtain rfl := Sum.inr_injective hchild
        refine ⟨relation :: rs, entity :: es, ?_, completes_cons.2 ⟨hmem, hsrc, hfresh, entity, es, rfl,
          hentity, .inr ⟨hshare, hcompletes⟩⟩⟩
        rw [Reached.then, List.length_append, List.length_singleton] at hlength
        rw [List.length_cons]
        omega
  · rintro ⟨rs, es, hlength, h⟩
    induction rs generalizing reached es with
    | nil => exact absurd h not_completes_nil
    | cons relation rs ih =>
      obtain ⟨hmem, hsrc, hfresh, entity, rest, rfl, hentity, hcases⟩ := completes_cons.1 h
      rw [List.length_cons] at hlength
      have hchild : (if entity.isShare then .inl ((reached.then relation entity).toPath shortHash entity)
          else .inr (reached.then relation entity)) ∈ expand shortHash entities relations maxDepth reached :=
        mem_expand.2 ⟨by omega, relation, hmem, entity, hsrc, hfresh, hentity, rfl⟩
      rcases hcases with ⟨hshare, -, -, rfl⟩ | ⟨hshare, hrest⟩
      · rw [if_pos hshare] at hchild
        exact .here hchild
      · rw [if_neg hshare] at hchild
        have hdepth : (reached.then relation entity).relations.length + rs.length ≤ maxDepth := by
          rw [Reached.then, List.length_append, List.length_singleton]
          omega
        exact .there hchild (ih rest hdepth hrest)

theorem depth_expand {child : Reached}
    (h : .inr child ∈ expand shortHash entities relations maxDepth reached) :
    maxDepth - child.relations.length < maxDepth - reached.relations.length := by
  obtain ⟨hdepth, relation, -, entity, -, -, -, hchild⟩ := mem_expand.1 h
  split at hchild
  · exact absurd hchild (by simp)
  · obtain rfl := Sum.inr_injective hchild
    rw [Reached.then, List.length_append, List.length_singleton]
    omega

/-- A path below a child goes on with the relation of the child. -/
theorem under_relations {child : TransmissionPath ⊕ Reached}
    (h : Branching.Under (expand shortHash entities relations maxDepth) child path)
    (hchild : child = if entity.isShare then .inl ((reached.then relation entity).toPath shortHash entity)
      else .inr (reached.then relation entity)) :
    ∃ rest, path.relations = reached.relations ++ relation :: rest := by
  split at hchild
  · rw [hchild] at h
    obtain rfl : _ = path := h
    exact ⟨[], rfl⟩
  · rw [hchild] at h
    obtain ⟨rs, es, -, hcompletes⟩ := leaf_iff.1 h
    refine ⟨rs, ?_⟩
    rw [hcompletes.relations_eq, Reached.then, List.append_assoc]
    rfl

/-- The children of an entry share no path. -/
theorem expand_apart (shortHash : String → String) (entities : String → Option GlobalEntity) (maxDepth : ℕ)
    (hnodup : relations.Nodup) :
    Branching.Apart (expand shortHash entities relations maxDepth) where
  nodup reached := by
    unfold expand
    split
    · exact List.nodup_nil
    · refine List.Nodup.filterMap (fun a b child ha hb => ?_) (hnodup.filter _)
      rw [Option.mem_def, follow_eq] at ha hb
      split at ha
      · exact absurd ha (by simp)
      split at hb
      · exact absurd hb (by simp)
      obtain ⟨entity, -, hchild⟩ := Option.map_eq_some_iff.1 ha
      obtain ⟨entity', -, hchild'⟩ := Option.map_eq_some_iff.1 hb
      rw [← hchild'] at hchild
      -- the last relation of the child is the one that led to it
      have hrelations : reached.relations ++ [a] = reached.relations ++ [b] := by
        split at hchild <;> split at hchild
        · exact congrArg TransmissionPath.relations (Sum.inl_injective hchild)
        · exact absurd hchild (by simp)
        · exact absurd hchild (by simp)
        · exact congrArg Reached.relations (Sum.inr_injective hchild)
      exact List.singleton_injective (List.append_cancel_left hrelations)
  disjoint reached a ha b hb path hpatha hpathb := by
    obtain ⟨-, ra, -, ea, -, -, hea, hchilda⟩ := mem_expand.1 ha
    obtain ⟨-, rb, -, eb, -, -, heb, hchildb⟩ := mem_expand.1 hb
    obtain ⟨resta, hresta⟩ := under_relations hpatha hchilda
    obtain ⟨restb, hrestb⟩ := under_relations hpathb hchildb
    obtain ⟨rfl, -⟩ := List.cons.inj (List.append_cancel_left (hresta.symm.trans hrestb))
    obtain rfl : ea = eb := Option.some_injective _ (hea.symm.trans heb)
    rw [hchilda, hchildb]

/-! ## The search -/

theorem foldl_nextConfidence {c : UInt16} (hc : c.toNat ≤ 10000) (rs : List GlobalRelation) :
    (rs.foldl nextConfidence c).toNat = flooredProduct c.toNat rs := by
  induction rs generalizing c with
  | nil => rfl
  | cons relation rs ih =>
    rw [List.foldl_cons, ih (nextConfidence_le hc relation), nextConfidence_toNat hc]
    rfl

/-- What completes the root is a transmission path. -/
theorem isPath_iff (hroot : entities root = some entity) :
    IsPath shortHash entities relations maxDepth root path ↔
      ∃ rs es, rs.length ≤ maxDepth ∧ Completes shortHash entities relations (start root entity) rs es path := by
  have hstart : (start root entity).confidence.toNat ≤ 10000 := le_refl 10000
  constructor
  · intro h
    have hknown := h.known
    rw [List.map_cons] at hknown
    obtain ⟨first, es, hentities, hfirst, hes⟩ := List.map_eq_cons_iff.1 hknown
    obtain rfl : first = entity := Option.some_injective _ (hfirst.trans hroot)
    have hne : es ≠ [] := by
      rintro rfl
      exact h.nonempty (List.map_eq_nil_iff.1 (List.map_eq_nil_iff.1 hes.symm))
    have hsimple := h.simple
    rw [List.nodup_cons] at hsimple
    refine ⟨path.relations, es, h.depth, ?_⟩
    constructor
    case relations_eq => rfl
    case entities_eq => exact hentities
    case listed => exact h.listed
    case linked => exact h.linked
    case simple => exact hsimple.2
    case fresh =>
      intro r hr hvisited
      exact hsimple.1 (List.mem_singleton.1 hvisited ▸ List.mem_map_of_mem hr)
    case known => exact hes
    case share =>
      obtain ⟨last, hlast, hends⟩ := h.share
      rw [hentities, List.getLast?_cons_of_ne_nil hne] at hlast
      exact ⟨last, hlast, hends⟩
    case between =>
      have hbetween := h.between
      rw [hentities] at hbetween
      exact hbetween
    case confidence =>
      apply UInt16.toNat_inj.1
      rw [h.confidence, foldl_nextConfidence hstart]
      rfl
    case pathId => exact h.pathId
  · rintro ⟨rs, es, hlength, h⟩
    obtain rfl : path.relations = rs := h.relations_eq
    have hentities : path.entities = entity :: es := h.entities_eq
    have hrs : path.relations ≠ [] := by
      intro hnil
      rw [hnil] at h
      exact not_completes_nil h
    have hne : es ≠ [] := by
      rintro rfl
      exact hrs (List.map_eq_nil_iff.1 (List.map_eq_nil_iff.1 h.known.symm))
    constructor
    case nonempty => exact hrs
    case depth => exact hlength
    case listed => exact h.listed
    case linked => exact h.linked
    case simple =>
      refine List.nodup_cons.2 ⟨fun hmem => ?_, h.simple⟩
      obtain ⟨r, hr, heq⟩ := List.mem_map.1 hmem
      exact h.fresh r hr (heq ▸ List.mem_singleton_self _)
    case known => rw [hentities, List.map_cons, List.map_cons, h.known, hroot]
    case share =>
      obtain ⟨last, hlast, hends⟩ := h.share
      exact ⟨last, by rw [hentities, List.getLast?_cons_of_ne_nil hne, hlast], hends⟩
    case between =>
      rw [hentities]
      exact h.between
    case confidence =>
      rw [h.confidence, foldl_nextConfidence hstart]
      rfl
    case pathId => exact h.pathId

/-- A path is determined by its relations. -/
theorem IsPath.ext {a b : TransmissionPath} (ha : IsPath shortHash entities relations maxDepth root a)
    (hb : IsPath shortHash entities relations maxDepth root b) (h : a.relations = b.relations) : a = b := by
  have hentities : a.entities = b.entities := by
    have hknown : a.entities.map some = b.entities.map some := by rw [ha.known, hb.known, h]
    exact (List.map_injective_iff.2 (Option.some_injective _)) hknown
  have hid : a.pathId = b.pathId := by rw [ha.pathId, hb.pathId, h]
  have hconfidence : a.pathConfidenceBps = b.pathConfidenceBps := by
    apply UInt16.toNat_inj.1
    rw [ha.confidence, hb.confidence, h]
  have hcode : a.targetAShareCode = b.targetAShareCode := by
    obtain ⟨last, hlast, -, hends⟩ := ha.share
    obtain ⟨last', hlast', -, hends'⟩ := hb.share
    rw [hentities, hlast'] at hlast
    rw [hends, hends', Option.some_injective _ hlast]
  cases a
  cases b
  cases h
  cases hentities
  cases hid
  cases hconfidence
  cases hcode
  rfl

/-- A supplier relation, sure to four fifths. -/
def supplies (relationId : String) : GlobalRelation where
  relationId := relationId
  srcEntityId := "foreign:a"
  dstEntityId := "share:b"
  relationType := "supplies"
  direction := "positive"
  confidenceBps := 8000
  evidenceDocumentId := "doc"
  evidenceSourceVersionId := "sv:1"
  evidenceQuoteOriginal := "quote"
  evidenceQuoteZh := none
  evidenceLocation := .null
  observedAt := 100
  validFrom := 100
  validTo := none
  confidence_le := by decide

/-- A company of a given id. -/
def company (entityId : String) : GlobalEntity where
  entityId := entityId
  entityType := "company"
  legalName := entityId
  nameZh := none
  jurisdiction := "CN"
  identifiers := .null
  aliases := []
  translationStatus := "original"

end Astock.Global
