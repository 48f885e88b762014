import Astock.Lib.Machine
import Astock.Lib.Table
import Astock.Lib.Text
import Mathlib.Data.List.Sort

/-!
# Formal disclosures

`crates/disclosure/src/lib.rs`: announcements under a canonical id, each with the entry points at
which it was found. An ingest is one transaction.

`sha` stands for the hexadecimal SHA-256 of a text and `lower` for `str::to_lowercase`. Categories,
structured events, the state of the providers, the record's creation and update times and the parser
version, which no link and no verification reads, are left out.
-/

namespace Astock

inductive ProviderAuthority
  | exchange
  | regulator
  | issuer
  | mirrorDiscovery
  deriving DecidableEq, Repr

def ProviderAuthority.isPrimary : ProviderAuthority → Bool
  | .mirrorDiscovery => false
  | _ => true

structure DisclosureSecurity where
  code : String
  name : String
  market : String
  deriving DecidableEq, Repr

structure DisclosureAttachmentInput where
  name : String
  originalUrl : String
  mediaType : String
  parentUrl : Option String
  byteSize : Option ℕ
  contentHash : Option String
  sourceVersionId : Option String
  pageCount : Option ℕ
  extractionStatus : String
  reviewReason : Option String
  deriving DecidableEq, Repr

structure DisclosureInput where
  providerId : String
  providerName : String
  authority : ProviderAuthority
  entryKind : String
  upstreamId : Option String
  originalUrl : String
  title : String
  publishedAt : Option ℤ
  publicationPrecision : String
  firstSeenAt : ℤ
  latencyMs : Option ℕ
  securities : List DisclosureSecurity
  attachments : List DisclosureAttachmentInput
  sourceVersionId : Option String
  extractionStatus : String
  reviewReason : Option String
  deriving DecidableEq, Repr

/-- The value of `disclosures.status`. -/
inductive DisclosureStatus
  | active
  | revised
  | cancelled
  deriving DecidableEq, Repr

/-- A row of `disclosures`. -/
structure Disclosure where
  disclosureId : String
  stableKey : String
  title : String
  normalizedTitle : String
  status : DisclosureStatus
  publishedAt : Option ℤ
  publicationPrecision : String
  firstSeenAt : ℤ
  lastSeenAt : ℤ
  revisionOf : Option String
  cancelledBy : Option String
  sourceVersionId : Option String
  extractionStatus : String
  reviewReason : Option String
  deriving DecidableEq, Repr

/-- A row of `disclosure_securities`. -/
structure DisclosureSecurityRow where
  disclosureId : String
  security : DisclosureSecurity
  deriving DecidableEq, Repr

/-- The primary key. -/
def DisclosureSecurityRow.key (row : DisclosureSecurityRow) : String × String :=
  (row.disclosureId, row.security.code)

/-- A row of `disclosure_sources`. -/
structure DisclosureSource where
  sourceId : String
  disclosureId : String
  providerId : String
  providerName : String
  authority : ProviderAuthority
  entryKind : String
  upstreamId : Option String
  originalUrl : String
  discoveredAt : ℤ
  latencyMs : Option ℕ
  isPrimary : Bool
  deriving DecidableEq, Repr

/-- A row of `disclosure_attachments`. -/
structure DisclosureAttachment where
  attachmentId : String
  disclosureId : String
  parentAttachmentId : Option String
  input : DisclosureAttachmentInput
  deriving DecidableEq, Repr

/-- The key that an upsert looks for. -/
def DisclosureAttachment.key (row : DisclosureAttachment) : String × String :=
  (row.disclosureId, row.input.originalUrl)

/-- The tables, each in the order in which its rows were inserted. -/
structure DisclosureStore where
  disclosures : List Disclosure := []
  securities : List DisclosureSecurityRow := []
  sources : List DisclosureSource := []
  attachments : List DisclosureAttachment := []
  deriving DecidableEq

inductive DisclosureError
  | emptyTitle
  /-- A constraint of a table. -/
  | storage
  deriving DecidableEq, Repr

structure IngestOutcome where
  disclosureId : String
  inserted : Bool
  duplicateEntry : Bool
  status : DisclosureStatus
  linkedRevision : Option String
  deriving DecidableEq, Repr

structure DisclosureListItem where
  disclosure : Disclosure
  discoveryLatencySecs : Option ℤ
  securities : List DisclosureSecurity
  sources : List DisclosureSource
  primaryVerified : Bool
  deriving DecidableEq, Repr

/-! ## Titles and keys -/

/-- `clean_text`. -/
def cleanText (value : String) : String := " ".intercalate (Text.splitWhitespace value)

def cancelledWords : List String := ["取消", "撤回", "作废", "终止发布"]

def revisedWords : List String := ["更正", "修订", "更新后", "补充公告", "勘误"]

def classifyStatus (title : String) : DisclosureStatus :=
  if cancelledWords.any (Text.contains title) then .cancelled
  else if revisedWords.any (Text.contains title) then .revised
  else .active

section

variable (sha lower : String → String)

/-- `normalize_title`. -/
def normalizeTitle (title : String) : String :=
  String.ofList ((lower (cleanText title)).toList.filter (· ∉ [' ', '　', '-', '_', '：', ':']))

/-- The rest of a text that starts with one of the words, the first of them that fits. -/
def afterWord (words : List String) (cs : List Char) : Option (List Char) :=
  words.findSome? fun word =>
    if word.toList.isPrefixOf cs then some (cs.drop word.toList.length) else none

/-- The rest after a match of `(关于|的)?(更正|修订|..)(公告)?` at the start of a text. -/
def afterMarker (cs : List Char) : Option (List Char) :=
  let core cs := (afterWord ["更正", "修订", "更新后", "补充公告", "勘误", "取消", "撤回", "作废"] cs).map
    fun rest => (afterWord ["公告"] rest).getD rest
  ((afterWord ["关于", "的"] cs).bind core).or (core cs)

/-- `replace_all` of the markers by nothing; a match is not empty, so the length of the text is enough
fuel. -/
def removeMarkers : ℕ → List Char → List Char
  | 0, cs => cs
  | _ + 1, [] => []
  | n + 1, c :: cs =>
    match afterMarker (c :: cs) with
    | some rest => removeMarkers n rest
    | none => c :: removeMarkers n cs

/-- `trim_end_matches("公告")` on the reversed text. -/
def dropNotice : List Char → List Char
  | '告' :: '公' :: cs => dropNotice cs
  | cs => cs

/-- `normalize_base_title`. -/
def normalizeBaseTitle (title : String) : String :=
  let cs := (normalizeTitle lower title).toList
  String.ofList (dropNotice (removeMarkers cs.length cs).reverse).reverse

/-- `stable_key`: the title, the Shanghai day and the codes. -/
def stableKey (title : String) (publishedAt : Option ℤ) (securities : List DisclosureSecurity) : String :=
  let day : ℤ := (publishedAt.map fun value => saturate (value + 8 * 3600) / 86400).getD 0
  normalizeTitle lower title ++ "|" ++ toString day ++ "|" ++ ",".intercalate (securities.map (·.code))

/-- `prefix + sha256(text)[..28]`. -/
def shortId (pre text : String) : String := pre ++ Text.takeChars 28 (sha text)

/-- The title cleaned, the securities sorted by code and without repeated codes. -/
def DisclosureInput.cleaned (input : DisclosureInput) : DisclosureInput :=
  { input with
    title := cleanText input.title
    securities :=
      (input.securities.insertionSort fun a b => a.code ≤ b.code).eraseRepsBy fun a b => a.code == b.code }

def DisclosureInput.status (input : DisclosureInput) : DisclosureStatus := classifyStatus input.cleaned.title

def DisclosureInput.stableKey (input : DisclosureInput) : String :=
  Astock.stableKey lower input.cleaned.title input.publishedAt input.cleaned.securities

def DisclosureInput.disclosureId (input : DisclosureInput) : String := shortId sha "disc:" (input.stableKey lower)

def DisclosureInput.sourceId (input : DisclosureInput) : String :=
  shortId sha "dsrc:" (input.providerId ++ "|" ++ input.originalUrl)

/-! ## Ingestion -/

namespace DisclosureStore

/-- `find_prior_revision`: of the other disclosures with the base title, the first one by
`first_seen_at DESC` that shares a code. -/
def findPriorRevision (db : DisclosureStore) (normalizedTitle : String) (securities : List DisclosureSecurity)
    (current : String) : Option String :=
  let codes := securities.map (·.code)
  let named := (db.disclosures.filter fun d => d.normalizedTitle = normalizedTitle ∧ d.disclosureId ≠ current)
  let ordered := named.insertionSort fun a b => b.firstSeenAt ≤ a.firstSeenAt
  (ordered.find? fun d => codes = [] ∨
    ∃ row ∈ db.securities, row.disclosureId = d.disclosureId ∧ row.security.code ∈ codes).map (·.disclosureId)

/-- What an ingest takes for the prior announcement. -/
def priorOf (db : DisclosureStore) (input : DisclosureInput) : Option String :=
  if input.status ≠ .active then
    db.findPriorRevision (normalizeBaseTitle lower input.cleaned.title) input.cleaned.securities
      (input.disclosureId sha lower)
  else none

/-- A stored disclosure that is found again. -/
def seenAgain (new old : Disclosure) : Disclosure :=
  { old with
    lastSeenAt := max old.lastSeenAt new.lastSeenAt
    sourceVersionId := new.sourceVersionId.or old.sourceVersionId
    extractionStatus := if new.extractionStatus = "parsed" then "parsed" else old.extractionStatus
    reviewReason := new.reviewReason.or old.reviewReason }

/-- `INSERT INTO disclosures .. ON CONFLICT(disclosure_id) DO UPDATE`. -/
def upsertDisclosure (db : DisclosureStore) (new : Disclosure) : Except DisclosureError DisclosureStore :=
  match Table.find Disclosure.disclosureId new.disclosureId db.disclosures with
  | some _ => .ok { db with
      disclosures := Table.update Disclosure.disclosureId new.disclosureId (seenAgain new) db.disclosures }
  | none =>
    -- UNIQUE(stable_key, status)
    if ∃ d ∈ db.disclosures, d.stableKey = new.stableKey ∧ d.status = new.status then .error .storage
    else .ok { db with disclosures := db.disclosures ++ [new] }

/-- `INSERT INTO disclosure_securities .. ON CONFLICT(disclosure_id, security_code) DO UPDATE`. -/
def upsertSecurity (disclosureId : String) (db : DisclosureStore) (security : DisclosureSecurity) :
    DisclosureStore :=
  if db.securities.any fun row => row.key = (disclosureId, security.code) then
    { db with
      securities := Table.update DisclosureSecurityRow.key (disclosureId, security.code) (fun row =>
        { row with security :=
            { row.security with
              name := if security.name = "" then row.security.name else security.name
              market := if security.market = "" then row.security.market else security.market } })
        db.securities }
  else { db with securities := db.securities ++ [⟨disclosureId, security⟩] }

/-- The row is refused by a key of `disclosure_sources`. -/
def sourceTaken (db : DisclosureStore) (new : DisclosureSource) : Bool :=
  db.sources.any fun row => row.sourceId = new.sourceId ∨
    row.providerId = new.providerId ∧ row.originalUrl = new.originalUrl

/-- `INSERT OR IGNORE INTO disclosure_sources`. -/
def insertSource (db : DisclosureStore) (new : DisclosureSource) : DisclosureStore :=
  if db.sourceTaken new then db else { db with sources := db.sources ++ [new] }

/-- `INSERT INTO disclosure_attachments .. ON CONFLICT(disclosure_id, original_url) DO UPDATE`. -/
def upsertAttachment (db : DisclosureStore) (new : DisclosureAttachment) : Except DisclosureError DisclosureStore :=
  if db.attachments.any fun row => row.key = new.key then
    .ok { db with
      attachments := Table.update DisclosureAttachment.key new.key (fun row =>
        { row with input :=
            { row.input with
              contentHash := new.input.contentHash.or row.input.contentHash
              sourceVersionId := new.input.sourceVersionId.or row.input.sourceVersionId
              extractionStatus := new.input.extractionStatus
              pageCount := new.input.pageCount.or row.input.pageCount
              reviewReason := new.input.reviewReason } })
        db.attachments }
  -- the primary key, and the reference to the parent
  else if db.attachments.any (fun row => row.attachmentId = new.attachmentId) ∨
      new.parentAttachmentId.any (fun parent => parent ≠ new.attachmentId ∧
        db.attachments.all fun row => row.attachmentId ≠ parent) then .error .storage
  else .ok { db with attachments := db.attachments ++ [new] }

/-- The row of an attachment: the parent is another attachment of the same input. -/
def attachmentRow (disclosureId : String) (all : List DisclosureAttachmentInput)
    (attachment : DisclosureAttachmentInput) : DisclosureAttachment where
  attachmentId := shortId sha "datt:" (disclosureId ++ "|" ++ attachment.originalUrl)
  disclosureId := disclosureId
  parentAttachmentId := attachment.parentUrl.bind fun url =>
    if all.any fun a => a.originalUrl = url then some (shortId sha "datt:" (disclosureId ++ "|" ++ url)) else none
  input := attachment

def markCancelled (cancelling : String) (d : Disclosure) : Disclosure :=
  { d with cancelledBy := some cancelling }

/-- `UPDATE disclosures SET cancelled_by`. -/
def cancel (db : DisclosureStore) (prior cancelling : String) : DisclosureStore :=
  { db with
    disclosures := Table.update Disclosure.disclosureId prior (markCancelled cancelling) db.disclosures }

end DisclosureStore

/-- The row that an ingest inserts for a new disclosure. -/
def DisclosureInput.row (input : DisclosureInput) (prior : Option String) : Disclosure where
  disclosureId := input.disclosureId sha lower
  stableKey := input.stableKey lower
  title := input.cleaned.title
  normalizedTitle := normalizeBaseTitle lower input.cleaned.title
  status := input.status
  publishedAt := input.publishedAt
  publicationPrecision := input.publicationPrecision
  firstSeenAt := input.firstSeenAt
  lastSeenAt := input.firstSeenAt
  revisionOf := prior
  cancelledBy := none
  sourceVersionId := input.sourceVersionId
  extractionStatus := input.extractionStatus
  reviewReason := input.reviewReason

/-- The row of the entry point. -/
def DisclosureInput.sourceRow (input : DisclosureInput) : DisclosureSource where
  sourceId := input.sourceId sha
  disclosureId := input.disclosureId sha lower
  providerId := input.providerId
  providerName := input.providerName
  authority := input.authority
  entryKind := input.entryKind
  upstreamId := input.upstreamId
  originalUrl := input.originalUrl
  discoveredAt := input.firstSeenAt
  latencyMs := input.latencyMs
  isPrimary := input.authority.isPrimary

namespace DisclosureStore

/-- `DisclosureStore::ingest`. -/
def ingest (db : DisclosureStore) (input : DisclosureInput) :
    Except DisclosureError (IngestOutcome × DisclosureStore) :=
  if input.cleaned.title = "" then .error .emptyTitle
  else do
    let id := input.disclosureId sha lower
    let prior := db.priorOf sha lower input
    let stored ← db.upsertDisclosure (input.row sha lower prior)
    let listed := input.cleaned.securities.foldl (upsertSecurity id) stored
    let sourced := listed.insertSource (input.sourceRow sha lower)
    let filed ← input.attachments.foldlM
      (fun db attachment => db.upsertAttachment (attachmentRow sha id input.attachments attachment)) sourced
    let done := match prior with
      | some prior => if input.status = .cancelled then filed.cancel prior id else filed
      | none => filed
    return ({ disclosureId := id
              inserted := (Table.find Disclosure.disclosureId id db.disclosures).isNone
              duplicateEntry := listed.sourceTaken (input.sourceRow sha lower)
              status := input.status
              linkedRevision := prior }, done)

/-- `hydrate_item`: a disclosure as it is listed. -/
def hydrateItem (db : DisclosureStore) (d : Disclosure) : DisclosureListItem :=
  let securities := (db.securities.filter fun row => row.disclosureId = d.disclosureId).map (·.security)
  let sources := db.sources.filter fun row => row.disclosureId = d.disclosureId
  { disclosure := d
    discoveryLatencySecs := d.publishedAt.map fun published => saturate (d.firstSeenAt - published)
    securities := securities.insertionSort fun a b => a.code ≤ b.code
    -- ORDER BY is_primary DESC, discovered_at
    sources := sources.insertionSort fun a b =>
      a.isPrimary = true ∧ b.isPrimary = false ∨ a.isPrimary = b.isPrimary ∧ a.discoveredAt ≤ b.discoveredAt
    primaryVerified := sources.any (·.isPrimary) && d.sourceVersionId.isSome }

end DisclosureStore

/-! ## Runs -/

/-- The store, and the inputs whose ingest returned `Ok`, in order. -/
structure Ingestion where
  db : DisclosureStore := {}
  accepted : List DisclosureInput := []

/-- One call; a failed one is rolled back. -/
def Ingestion.after (s : Ingestion) (input : DisclosureInput) : Ingestion :=
  match s.db.ingest sha lower input with
  | .ok (_, db) => ⟨db, s.accepted ++ [input]⟩
  | .error _ => s

end

end Astock
