import Astock.Lib.Run
import Astock.Spec.NewsArchive

/-!
# The current revision of a document

* `after_cases`: what an upsert does to the document and to its revisions.
* `Lineage`: the revisions of a document form one chain, and its current revision is the last of
  them. Every upsert keeps this.
* `current_iff_fresh`: **the current revision is what was last observed** exactly as long as every
  upsert brings content that the document does not have yet.
-/

namespace Astock

variable {sha : Bytes → String} {s : NewsArchive} {call : UpsertCall}

/-! ## What an upsert does -/

namespace NewsArchive

/-- The revisions of a document, oldest first. -/
def revisionsOf (s : NewsArchive) (documentId : String) : List DocumentRevision :=
  s.revisions.filter fun r => r.documentId = documentId

/-- The document that an upsert writes, and its revision. -/
def written (sha : Bytes → String) (s : NewsArchive) (call : UpsertCall) : SourceDocument :=
  observed sha call.now call.input (s.document (call.input.documentId sha))

def proposed (sha : Bytes → String) (s : NewsArchive) (call : UpsertCall) : DocumentRevision :=
  candidate sha call.now call.input (s.document (call.input.documentId sha))

end NewsArchive

open NewsArchive

theorem document_upsert (d : SourceDocument) (documents : List SourceDocument) :
    Table.find SourceDocument.documentId d.documentId
      (Table.upsert SourceDocument.documentId d documents) = some d := Table.find_upsert_self d documents

/-- The document is written; a revision that is new is added, and becomes the current one. -/
theorem after_cases (sha : Bytes → String) (s : NewsArchive) (call : UpsertCall)
    (hvalid : call.input.validate = .ok ()) :
    (s.hasRevision (s.proposed sha call) = true ∧ (s.after sha call).revisions = s.revisions ∧
      (s.after sha call).document (call.input.documentId sha) = some (s.written sha call)) ∨
    (s.hasRevision (s.proposed sha call) = false ∧
      (s.after sha call).revisions = s.revisions ++ [s.proposed sha call] ∧
      (s.after sha call).document (call.input.documentId sha) =
        some { s.written sha call with
          currentRevisionId := some (call.input.revisionId sha)
          contentHash := call.input.contentHash sha }) := by
  have hfind : Table.find SourceDocument.documentId (call.input.documentId sha)
      (Table.upsert SourceDocument.documentId (s.written sha call) s.documents) =
        some (s.written sha call) := document_upsert (s.written sha call) s.documents
  unfold after upsert
  rw [hvalid]
  cases hhas : s.hasRevision (s.proposed sha call) with
  | true =>
    left
    have hinserted : (!s.hasRevision (candidate sha call.now call.input
        (s.document (call.input.documentId sha)))) = false := by
      rw [show s.hasRevision (candidate sha call.now call.input
        (s.document (call.input.documentId sha))) = true from hhas]
      rfl
    simp only [hinserted]
    exact ⟨trivial, rfl, hfind⟩
  | false =>
    right
    have hinserted : (!s.hasRevision (candidate sha call.now call.input
        (s.document (call.input.documentId sha)))) = true := by
      rw [show s.hasRevision (candidate sha call.now call.input
        (s.document (call.input.documentId sha))) = false from hhas]
      rfl
    simp only [hinserted]
    refine ⟨trivial, rfl, ?_⟩
    have hupdate := @Table.find_update_self _ _ _ SourceDocument.documentId (call.input.documentId sha)
      (Table.upsert SourceDocument.documentId (s.written sha call) s.documents)
      (fun d => { d with
        currentRevisionId := some (call.input.revisionId sha)
        contentHash := call.input.contentHash sha }) fun _ => rfl
    rw [hfind] at hupdate
    exact hupdate

/-- What an upsert answers. -/
def UpsertCall.result (sha : Bytes → String) (s : NewsArchive) (call : UpsertCall) : NewsArchiveUpsert where
  documentId := call.input.documentId sha
  revisionId := call.input.revisionId sha
  insertedRevision := !s.hasRevision (s.proposed sha call)
  supersedesRevisionId := (s.document (call.input.documentId sha)).bind (·.currentRevisionId)

theorem upsert_result (hvalid : call.input.validate = .ok ()) :
    (s.upsert sha call.now call.input).1 = .ok (call.result sha s) := by
  unfold upsert
  rw [hvalid]
  rfl

/-! ## The lineage of a document -/

/-- The revisions of a document form one chain: the first supersedes nothing, each other one the
one before it; none is in it twice. -/
structure Chain (revisions : List DocumentRevision) : Prop where
  first : ∀ r ∈ revisions.head?, r.supersedesRevisionId = none
  links : revisions.IsChain fun r r' => r'.supersedesRevisionId = some r.revisionId
  distinct : (revisions.map (·.revisionId)).Nodup

/-- What every upsert keeps. -/
structure Lineage (sha : Bytes → String) (s : NewsArchive) (documentId : String) : Prop where
  chain : Chain (s.revisionsOf documentId)
  ids : ∀ r ∈ s.revisionsOf documentId, r.revisionId = revisionIdOf sha documentId r.revisionHash
  current : (s.document documentId).bind (·.currentRevisionId) =
    (s.revisionsOf documentId).getLast?.map (·.revisionId)

theorem revisionsOf_after_added (h : (s.after sha call).revisions = s.revisions ++ [s.proposed sha call]) :
    (s.after sha call).revisionsOf (call.input.documentId sha) =
      s.revisionsOf (call.input.documentId sha) ++ [s.proposed sha call] := by
  unfold NewsArchive.revisionsOf
  rw [h, List.filter_append]
  have hself : (s.proposed sha call).documentId = call.input.documentId sha := rfl
  simp [hself]

theorem Lineage.after (h : Lineage sha s (call.input.documentId sha))
    (hvalid : call.input.validate = .ok ()) :
    Lineage sha (s.after sha call) (call.input.documentId sha) := by
  rcases after_cases sha s call hvalid with ⟨-, hrevisions, hdocument⟩ | ⟨hnew, hrevisions, hdocument⟩
  · have hof : (s.after sha call).revisionsOf (call.input.documentId sha) =
        s.revisionsOf (call.input.documentId sha) := by
      unfold NewsArchive.revisionsOf
      rw [hrevisions]
    have hchain := h.chain
    have hids := h.ids
    have hcurrent := h.current
    rw [← hof] at hchain hids hcurrent
    refine ⟨hchain, hids, ?_⟩
    rw [hdocument]
    exact hcurrent
  · have hof := revisionsOf_after_added hrevisions
    have hfresh : ∀ r ∈ s.revisions, r.revisionId ≠ (s.proposed sha call).revisionId := by
      intro r hr hid
      have hhas : s.hasRevision (s.proposed sha call) = true :=
        List.any_eq_true.2 ⟨r, hr, by simp [hid]⟩
      rw [hnew] at hhas
      simp at hhas
    -- the new revision supersedes the current one, which is the last of the chain
    have hlast : (s.proposed sha call).supersedesRevisionId =
        (s.revisionsOf (call.input.documentId sha)).getLast?.map (·.revisionId) := h.current
    refine ⟨⟨fun r hr => ?_, ?_, ?_⟩, fun r hr => ?_, ?_⟩
    · rw [hof] at hr
      cases hl : s.revisionsOf (call.input.documentId sha) with
      | nil =>
        rw [hl] at hr hlast
        obtain rfl := Option.some.inj hr
        exact hlast
      | cons r₀ rest =>
        rw [hl] at hr
        exact h.chain.first r (by rw [hl]; exact hr)
    · rw [hof]
      refine List.isChain_append.2 ⟨h.chain.links, .singleton _, fun a ha b hb => ?_⟩
      obtain rfl := Option.some.inj hb
      rw [hlast, Option.mem_def.1 ha]
      rfl
    · rw [hof, List.map_append, List.nodup_append]
      refine ⟨h.chain.distinct, List.nodup_singleton _, fun a ha b hb => ?_⟩
      obtain ⟨r, hr, rfl⟩ := List.mem_map.1 ha
      rw [List.map_singleton, List.mem_singleton] at hb
      rw [hb]
      exact hfresh r (List.mem_filter.1 hr).1
    · rw [hof] at hr
      rcases List.mem_append.1 hr with hr | hr
      · exact h.ids r hr
      · rw [List.mem_singleton.1 hr]
        rfl
    · rw [hof, hdocument, List.getLast?_append]
      rfl

/-! ## The current revision -/

/-- After an upsert, the document is at the revision that the upsert brought, and the answer names
another one as superseded. -/
structure AtObserved (sha : Bytes → String) (s : NewsArchive) (call : UpsertCall) : Prop where
  current : ∃ d r, (s.after sha call).document (call.input.documentId sha) = some d ∧
    r ∈ (s.after sha call).revisionsOf (call.input.documentId sha) ∧
    d.currentRevisionId = some r.revisionId ∧ r.title = call.input.title ∧
    r.factualSummary = call.input.factualSummary ∧ r.rawSnapshot = call.input.permittedRaw ∧
    r.revisionHash = call.input.revisionHash sha ∧ d.parserVersion = call.input.parserVersion ∧
    d.contentHash = contentHashOf sha r.title r.factualSummary r.rawSnapshotHash
  supersedes : ∀ result, (s.upsert sha call.now call.input).1 = .ok result →
    result.supersedesRevisionId ≠ some result.revisionId

/-- The content of the upsert is no stored revision yet. -/
def Fresh (sha : Bytes → String) (s : NewsArchive) (call : UpsertCall) : Prop :=
  ∀ r ∈ s.revisions, r.revisionId ≠ call.input.revisionId sha

instance (s : NewsArchive) (call : UpsertCall) : Decidable (Fresh sha s call) :=
  inferInstanceAs (Decidable (∀ r ∈ s.revisions, _))

/-- A revision whose content is fresh is not there. -/
theorem hasRevision_eq_false (h : Lineage sha s (call.input.documentId sha))
    (hfresh : Fresh sha s call) : s.hasRevision (s.proposed sha call) = false := by
  rw [Bool.eq_false_iff]
  intro hhas
  obtain ⟨r, hr, hsame⟩ := List.any_eq_true.1 hhas
  rw [Bool.or_eq_true, Bool.and_eq_true, decide_eq_true_eq, decide_eq_true_eq, decide_eq_true_eq] at hsame
  rcases hsame with hid | ⟨hdocument, hhash⟩
  · exact hfresh r hr hid
  · -- a revision of this document with the same hash has the same id
    have hdoc : r.documentId = call.input.documentId sha := hdocument
    have hid := h.ids r (List.mem_filter.2 ⟨hr, decide_eq_true hdoc⟩)
    rw [hhash] at hid
    exact hfresh r hr hid

/-- **The document is at what was observed** exactly when that is new to it. -/
theorem atObserved_iff_fresh (h : Lineage sha s (call.input.documentId sha))
    (hvalid : call.input.validate = .ok ()) : AtObserved sha s call ↔ Fresh sha s call := by
  constructor
  · rintro ⟨⟨d, r, hd, hr, hcurrent, -, -, -, hhash, -, -⟩, hsupersedes⟩ stored hstored hid
    have hhas : s.hasRevision (s.proposed sha call) = true :=
      List.any_eq_true.2 ⟨stored, hstored, by simp [hid, proposed, candidate]⟩
    rcases after_cases sha s call hvalid with ⟨-, hrevisions, hdocument⟩ | ⟨hnew, -, -⟩
    · -- the current revision stayed; with the hash of the input, it is the one that was answered
      obtain rfl := Option.some.inj (hdocument.symm.trans hd)
      have hof : r ∈ s.revisionsOf (call.input.documentId sha) := by
        unfold NewsArchive.revisionsOf at hr ⊢
        rwa [hrevisions] at hr
      have hrid := h.ids r hof
      rw [hhash] at hrid
      refine hsupersedes _ (upsert_result hvalid) ?_
      show (s.document (call.input.documentId sha)).bind (·.currentRevisionId) =
        some (call.input.revisionId sha)
      rw [show (s.document (call.input.documentId sha)).bind (·.currentRevisionId) =
        some r.revisionId from hcurrent, hrid]
      rfl
    · rw [hhas] at hnew
      simp at hnew
  · intro hfresh
    have hnew := hasRevision_eq_false h hfresh
    rcases after_cases sha s call hvalid with ⟨hhas, -, -⟩ | ⟨-, hrevisions, hdocument⟩
    · rw [hnew] at hhas
      simp at hhas
    have hof := revisionsOf_after_added hrevisions
    refine ⟨⟨_, s.proposed sha call, hdocument, ?_, rfl, rfl, rfl, rfl, rfl, rfl, rfl⟩,
      fun result hresult => ?_⟩
    · rw [hof]
      exact List.mem_append_right _ List.mem_cons_self
    · obtain rfl := Except.ok.inj ((upsert_result hvalid).symm.trans hresult)
      intro hself
      have hcurrent : (s.document (call.input.documentId sha)).bind (·.currentRevisionId) =
        some (call.input.revisionId sha) := hself
      rw [h.current] at hcurrent
      obtain ⟨last, hlast, hid⟩ := Option.map_eq_some_iff.1 hcurrent
      have hmem := List.mem_filter.1 (List.mem_of_getLast? hlast)
      exact hfresh last hmem.1 hid

/-- What the archive says after an upsert: the document is at what was observed, stored revisions
are as they were, and those of the document form one chain. -/
structure Faithful (sha : Bytes → String) (s : NewsArchive) (call : UpsertCall) : Prop where
  atObserved : AtObserved sha s call
  unchanged : s.revisions <+: (s.after sha call).revisions
  chain : Chain ((s.after sha call).revisionsOf (call.input.documentId sha))

/-- **The current revision is what was last observed**, in every sequence of upserts of one
document, exactly as long as each brings content that is no stored revision yet. -/
theorem current_iff_fresh (sha : Bytes → String) (start : NewsArchive) (sourceId canonicalUrl : String)
    (hdocument : start.document (documentIdOf sha sourceId canonicalUrl) = none)
    (hrevisions : start.revisionsOf (documentIdOf sha sourceId canonicalUrl) = [])
    (calls : List UpsertCall)
    (hcalls : ∀ call ∈ calls, call.input.sourceId = sourceId ∧ call.input.canonicalUrl = canonicalUrl ∧
      call.input.validate = .ok ()) :
    Run.Along (NewsArchive.after sha) (Faithful sha) start calls ↔
      Run.Along (NewsArchive.after sha) (Fresh sha) start calls := by
  have hid : ∀ call : UpsertCall, call.input.sourceId = sourceId ∧
      call.input.canonicalUrl = canonicalUrl ∧ call.input.validate = .ok () →
      call.input.documentId sha = documentIdOf sha sourceId canonicalUrl := by
    rintro call ⟨hsource, hurl, -⟩
    unfold NewsArchiveInput.documentId
    rw [hsource, hurl]
  refine Run.along_congr (I := fun s => Lineage sha s (documentIdOf sha sourceId canonicalUrl))
    (fun s call hcall h => ?_) (fun s call hcall h => ?_) calls start hcalls ?_
  · rw [← hid call hcall] at h ⊢
    exact h.after hcall.2.2
  · rw [← hid call hcall] at h
    refine ⟨fun hfaithful => (atObserved_iff_fresh h hcall.2.2).1 hfaithful.atObserved,
      fun hfresh => ⟨(atObserved_iff_fresh h hcall.2.2).2 hfresh, ?_, (h.after hcall.2.2).chain⟩⟩
    rcases after_cases sha s call hcall.2.2 with ⟨-, hsame, -⟩ | ⟨-, hadded, -⟩
    · rw [hsame]
    · rw [hadded]
      exact List.prefix_append _ _
  · refine ⟨⟨fun r hr => ?_, ?_, ?_⟩, fun r hr => ?_, ?_⟩
    · rw [hrevisions] at hr
      simp at hr
    · rw [hrevisions]
      exact .nil
    · rw [hrevisions]
      exact List.nodup_nil
    · rw [hrevisions] at hr
      simp at hr
    · rw [hrevisions, hdocument]
      rfl

/-! ## A correction that is reverted -/

/-- A stand-in for the digest that shows the bytes. -/
def latin (b : Bytes) : String := String.ofList (b.map fun x => Char.ofNat x.toNat)

theorem latin_injective : Function.Injective latin := by
  have hchar : ∀ n < 256, (Char.ofNat n).toNat = n := by
    intro n hn
    have hvalid : n.isValidChar := .inl (by omega)
    unfold Char.ofNat
    rw [dif_pos hvalid]
    rfl
  have hinj : Function.Injective fun x : UInt8 => Char.ofNat x.toNat := by
    intro x y hxy
    have htoNat := congrArg Char.toNat hxy
    rw [hchar _ x.toNat_lt, hchar _ y.toNat_lt] at htoNat
    exact UInt8.toNat_inj.1 htoNat
  intro a b hab
  exact hinj.list_map (String.ofList_injective hab)

/-- An announcement of the exchange, observed at `t`. -/
def announcement (title summary : String) (revisionTime : Option ℤ) (t : ℤ) : UpsertCall where
  now := t
  input :=
    { canonicalUrl := "https://example.com/a"
      sourceId := "official"
      sourceName := "交易所公告"
      license := "official-public-disclosure"
      contentType := "announcement"
      language := "zh-CN"
      parserVersion := "fixture-v1"
      title := title
      factualSummary := summary
      rawSnapshot := some (bytes summary)
      rawSnapshotPermitted := true
      eventTime := ⟨none, none⟩
      publishTime := ⟨none, none⟩
      firstSeenTimeUtc := t
      revisionTime := ⟨revisionTime, none⟩
      retentionClass := "research_evidence"
      observation :=
        { providerId := "official"
          fetchedAt := t
          parseStatus := "ok"
          rawEvidence := none } }

theorem toList_loop (b : ByteArray) (i : ℕ) (r : List UInt8) :
    ByteArray.toList.loop b i r = r.reverse ++ b.data.toList.drop i := by
  fun_induction ByteArray.toList.loop b i r with
  | case1 i r hlt ih =>
    have hsize : i < b.data.toList.length := by simpa using hlt
    have hget : b.get! i = b.data.toList[i] := getElem!_pos b.data i (by simpa using hlt)
    rw [ih, List.reverse_cons, List.append_assoc, List.drop_eq_getElem_cons hsize, hget]
    rfl
  | case2 i r hge =>
    have hsize : b.data.toList.length ≤ i := by simpa using hge
    rw [List.drop_eq_nil_of_le hsize, List.append_nil]

theorem bytes_injective : Function.Injective bytes := by
  have hbytes : ∀ s : String, bytes s = s.toByteArray.data.toList := fun s => toList_loop _ 0 []
  intro a b h
  rw [hbytes, hbytes] at h
  exact String.toByteArray_inj.1 (ByteArray.ext (Array.toList_inj.1 h))

/-- Other content is another revision of the document. -/
theorem revisionId_ne {a b : NewsArchiveInput} (hsha : Function.Injective sha)
    (hdocument : a.documentId sha = b.documentId sha) (hparser : a.parserVersion = b.parserVersion)
    (hcontent : a.contentHash sha ≠ b.contentHash sha) : a.revisionId sha ≠ b.revisionId sha := by
  intro h
  unfold NewsArchiveInput.revisionId revisionIdOf at h
  have hid := hsha (String.append_right_inj _ |>.1 h)
  rw [hdocument] at hid
  have hhash := bytes_injective (List.append_cancel_left hid)
  unfold NewsArchiveInput.revisionHash revisionHashOf at hhash
  have hbytes := hsha hhash
  rw [hparser] at hbytes
  exact hcontent (bytes_injective (List.append_cancel_left hbytes))

/-- The documents of the announcements below. -/
def announced : List UpsertCall := [announcement "首次公告" "事实一" none 2000,
  announcement "更正公告" "事实二" none 2200, announcement "首次公告" "事实一" none 2400]

theorem announced_valid : ∀ call ∈ announced, call.input.sourceId = "official" ∧
    call.input.canonicalUrl = "https://example.com/a" ∧ call.input.validate = .ok () := by
  decide +kernel

/-- The first two announcements bring different content. -/
theorem correction_new : (announcement "首次公告" "事实一" none 2000).input.revisionId latin ≠
    (announcement "更正公告" "事实二" none 2200).input.revisionId latin :=
  revisionId_ne latin_injective rfl rfl (by decide +kernel)

theorem correction_faithful : Run.Along (NewsArchive.after latin) (Faithful latin) {}
    [announcement "首次公告" "事实一" none 2000, announcement "更正公告" "事实二" none 2200] := by
  have hvalid : ∀ call ∈ [announcement "首次公告" "事实一" none 2000,
      announcement "更正公告" "事实二" none 2200], call.input.sourceId = "official" ∧
      call.input.canonicalUrl = "https://example.com/a" ∧ call.input.validate = .ok () :=
    fun call hcall => announced_valid call (List.mem_of_mem_take (i := 2) hcall)
  refine (current_iff_fresh latin {} "official" "https://example.com/a" rfl rfl _ hvalid).2
    ⟨fun r hr => absurd hr List.not_mem_nil, fun r hr => ?_, trivial⟩
  rcases after_cases latin {} (announcement "首次公告" "事实一" none 2000)
    (hvalid _ List.mem_cons_self).2.2 with ⟨-, hrevisions, -⟩ | ⟨-, hrevisions, -⟩
  · rw [hrevisions] at hr
    exact absurd hr List.not_mem_nil
  · rw [hrevisions] at hr
    rw [List.mem_singleton.1 hr]
    exact correction_new

/-- **A correction that is taken back** stays the current revision. -/
theorem reverted_unfaithful :
    ¬ ∀ (sha : Bytes → String) (start : NewsArchive) (sourceId canonicalUrl : String)
      (calls : List UpsertCall), Function.Injective sha →
      start.document (documentIdOf sha sourceId canonicalUrl) = none →
      start.revisionsOf (documentIdOf sha sourceId canonicalUrl) = [] →
      (∀ call ∈ calls, call.input.sourceId = sourceId ∧ call.input.canonicalUrl = canonicalUrl ∧
        call.input.validate = .ok ()) →
      Run.Along (NewsArchive.after sha) (Faithful sha) start calls := by
  intro h
  have hfaithful := h latin {} "official" "https://example.com/a" announced latin_injective rfl rfl
    announced_valid
  have hsecond := hfaithful.2.1
  obtain ⟨-, -, hfresh, -⟩ := (current_iff_fresh latin {} "official" "https://example.com/a" rfl rfl
    announced announced_valid).1 hfaithful
  -- the first revision is still there when its content comes again
  rcases after_cases latin {} (announcement "首次公告" "事实一" none 2000)
    (announced_valid _ List.mem_cons_self).2.2 with ⟨hhas, -, -⟩ | ⟨-, hrevisions, -⟩
  · exact absurd hhas Bool.false_ne_true
  · refine hfresh (proposed latin {} (announcement "首次公告" "事实一" none 2000)) ?_ rfl
    refine hsecond.unchanged.subset ?_
    rw [hrevisions]
    exact List.mem_singleton_self _

end Astock
