/-
# The HTTP server

The handlers of the server that read and write the shards (`crates/server/src/main.rs`), in one
process with its shards: a router of in-process shards without replicas, query cache or
availability strategy.  A handler turns a request away, or makes one call of the router for it.

So requests do what the calls of those that are accepted do, whatever comes before, between and
after them; one that is turned away changes nothing, and every other one succeeds and says how many
documents it was about (`requests_answered`).  A catalogue with an item a line is taken as a whole:
either the first line that is no item is named and nothing is indexed, or every line that is not
blank is indexed or said to be skipped (`catalogue_answered`).

Parsing JSON and checking UTF-8 are parameters, as are the texts of the errors of shards, which
those of the operating system are part of.
-/
import ZearchEngine.Lib.Lines
import ZearchEngine.ClusterRuns
import ZearchEngine.Meli

namespace ZearchEngine

open ShardEngine Components

/-! ## 1. Requests and replies -/

/-- `StatusCode`, of errors. -/
inductive StatusCode where
  | badRequest
  | internalServerError
deriving DecidableEq

/-- An error status with its body. -/
structure Failure where
  status : StatusCode
  error : String
  details : Option (List String) := none
deriving DecidableEq

/-- The body of a reply that is no error. -/
inductive Reply where
  | results (response : SearchResponse)
  | success
  | indexed (indexed : UInt32)
  | ingested (indexed skipped : Nat) (errors : List String)
  | flushed
  | reindexed (totalDocs : Nat) (docsReindexed : List Nat)

/-- What clients ask for.  The body of a catalogue is as it was received, the other ones are
decoded. -/
inductive HttpRequest where
  | search (request : Router.Request)
  | indexDoc (doc : Document)
  | bulkIndex (docs : List Document)
  | meliBulk (contentType : Option String) (body : Except String (List UInt8))
  | deleteDoc (id : DocId)
  | flushAll
  | reindexAll

/-- `AppState`, and what the handlers call outside of the repository. -/
structure HttpServer where
  router : Router
  /-- `std::str::from_utf8`. -/
  fromUtf8 : List UInt8 → Except String String
  /-- `serde_json::from_str`. -/
  parseItem : String → Except String MeliItem
  /-- `serde_json::from_slice`. -/
  parseItems : List UInt8 → Except String (List MeliItem)
  /-- `str::to_lowercase`. -/
  toLowercase : String → String
  /-- `to_string` of the error of a shard. -/
  describe : Error → String

/-- `to_string`. -/
def RouterError.toString : RouterError → String
  | .shard message => "Shard error: " ++ message

namespace HttpServer

variable (server : HttpServer)

/-- A handler: what it replies, and the shards after it. -/
abbrev Handler : Type :=
  (Fin server.router.shards → ShardEngine) →
    Except Failure Reply × (Fin server.router.shards → ShardEngine)

/-! ## 2. Handlers -/

/-- A request that is turned away. -/
def rejected (error : String) (details : Option (List String)) : server.Handler :=
  fun engines => (.error { status := .badRequest, error, details }, engines)

/-- What is replied to a call of the router. -/
def answered {ε α : Type} (describe : ε → String) (reply : α → Reply)
    (call : (Fin server.router.shards → ShardEngine) →
      Except ε α × (Fin server.router.shards → ShardEngine)) : server.Handler :=
  fun engines =>
    let (result, engines) := call engines
    ((result.map reply).mapError (fun e => { status := .internalServerError, error := describe e }),
      engines)

/-- `search`. -/
def search (request : Router.Request) : server.Handler :=
  if request.query.utf8ByteSize > 1024 then server.rejected "query too long" none
  else if request.limit > 1000 then server.rejected "limit exceeds maximum of 1000" none
  else server.answered RouterError.toString .results
    (fun engines => server.router.searchLocal engines request)

/-- `index_doc`. -/
def indexDoc (doc : Document) : server.Handler :=
  if doc.title.isEmpty then server.rejected "title is required" none
  else server.answered server.describe (fun _ => .success) (server.router.index doc)

/-- `bulk_index`. -/
def bulkIndex (docs : List Document) : server.Handler :=
  if docs.isEmpty then server.rejected "empty batch" none
  else if docs.length > 10000 then server.rejected "batch exceeds 10,000 documents" none
  else if docs.any (fun d => d.title.isEmpty) then
    server.rejected "all documents must have a title" none
  else server.answered server.describe .indexed (server.router.bulkIndex docs)

/-- `contains`. -/
def contains (text pattern : String) : Bool := decide (pattern.toList <:+: text.toList)

/-- `to_ascii_lowercase`. -/
def toAsciiLowercase (s : String) : String := String.ofList (s.toList.map Char.toLower)

/-- The content type says that there is an item a line. -/
def isJsonl (contentType : Option String) : Bool :=
  let contentType := toAsciiLowercase (contentType.getD "")
  contains contentType "ndjson" || contains contentType "jsonlines" || contains contentType "jsonl"

/-- `parse_jsonl`.  A carriage return before a newline is taken off with the blanks of its
line. -/
def parseJsonl (body : List UInt8) : Except String (List MeliItem) :=
  (server.fromUtf8 body).bind (Lines.parseText server.parseItem)

/-- The items of a catalogue. -/
def items (contentType : Option String) (body : List UInt8) : Except String (List MeliItem) :=
  if isJsonl contentType then server.parseJsonl body else server.parseItems body

/-- `meli_bulk`, once the body is received and parsed. -/
def ingest (items : List MeliItem) : server.Handler :=
  if items.isEmpty then server.rejected "empty batch" none
  else if items.length > 10000 then server.rejected "batch exceeds 10,000 items" none
  else
    let (docs, errors) := MeliMapper.mapBatch server.toLowercase items
    let indexed := docs.length
    let skipped := errors.map MappingError.toString
    if indexed = 0 then server.rejected "all items failed mapping" (some skipped)
    else server.answered server.describe (fun _ => .ingested indexed skipped.length skipped)
      (server.router.bulkIndex docs)

/-- `meli_bulk`. -/
def meliBulk (contentType : Option String) (body : Except String (List UInt8)) : server.Handler :=
  match body.bind (server.items contentType) with
  | .error e => server.rejected e none
  | .ok items => server.ingest items

/-- `delete_doc`. -/
def deleteDoc (id : DocId) : server.Handler :=
  server.answered server.describe (fun _ => .success) (server.router.delete id)

/-- `flush_all`. -/
def flushAll : server.Handler :=
  server.answered server.describe (fun _ => .flushed) server.router.flush

/-- `reindex_all`. -/
def reindexAll : server.Handler :=
  server.answered server.describe (fun stats => .reindexed stats.sum stats) server.router.reindex

/-- The routes. -/
def handle : HttpRequest → server.Handler
  | .search request => server.search request
  | .indexDoc doc => server.indexDoc doc
  | .bulkIndex docs => server.bulkIndex docs
  | .meliBulk contentType body => server.meliBulk contentType body
  | .deleteDoc id => server.deleteDoc id
  | .flushAll => server.flushAll
  | .reindexAll => server.reindexAll

/-! ## 3. What a request stands for -/

/-- The documents of a catalogue that is taken. -/
def catalogueDocs (items : List MeliItem) : Option (List Document) :=
  let docs := (MeliMapper.mapBatch server.toLowercase items).1
  if docs = [] ∨ 10000 < items.length then none else some docs

/-- The call of the router that a request stands for; none, if it is turned away. -/
def call : HttpRequest → Option (Router.Call server.router.shards)
  | .search request => if request.Admitted then some (.search request) else none
  | .indexDoc doc => if doc.title = "" then none else some (.index doc)
  | .bulkIndex docs =>
    if docs = [] ∨ 10000 < docs.length ∨ ∃ doc ∈ docs, doc.title = "" then none
    else some (.bulkIndex docs)
  | .meliBulk contentType body =>
    ((body.bind (server.items contentType)).toOption.bind server.catalogueDocs).map .bulkIndex
  | .deleteDoc id => some (.delete id)
  | .flushAll => some .flush
  | .reindexAll => some .reindex

/-- What the reply says is so. -/
def Accounts (engines : Fin server.router.shards → ShardEngine) (reply : Reply) :
    HttpRequest → Prop
  | .search request => ∃ response, (server.router.searchLocal engines request).1 = .ok response ∧
      reply = .results response
  | .bulkIndex docs => ∃ indexed, reply = .indexed indexed ∧ indexed.toNat = docs.length
  | .meliBulk contentType body => ∃ items docs skipped,
      body.bind (server.items contentType) = .ok items ∧ server.catalogueDocs items = some docs ∧
      reply = .ingested docs.length skipped.length skipped ∧
      docs.length + skipped.length = items.length
  | .indexDoc _ | .deleteDoc _ => reply = .success
  | .flushAll => reply = .flushed
  | .reindexAll =>
    let held := (List.finRange server.router.shards).map (fun i => (engines i).holds.card)
    reply = .reindexed held.sum held

variable {server} {engines : Fin server.router.shards → ShardEngine}

/-- A handler that turns requests away. -/
def Rejects (server : HttpServer) (handler : server.Handler) : Prop :=
  ∃ failure, failure.status = .badRequest ∧ ∀ engines, handler engines = (.error failure, engines)

theorem rejects_rejected (error : String) (details : Option (List String)) :
    server.Rejects (server.rejected error details) :=
  ⟨_, rfl, fun _ => rfl⟩

/-- A call of the router that succeeds. -/
theorem answered_eq {ε α : Type} {describe : ε → String} {reply : α → Reply}
    {call : (Fin server.router.shards → ShardEngine) →
      Except ε α × (Fin server.router.shards → ShardEngine)} {a : α}
    (h : (call engines).1 = .ok a) :
    server.answered describe reply call engines = (.ok (reply a), (call engines).2) := by
  show (((call engines).1.map reply).mapError _, (call engines).2) = _
  rw [h]
  rfl

/-- Every item has its document or its error. -/
theorem length_mapBatch (items : List MeliItem) :
    (MeliMapper.mapBatch server.toLowercase items).1.length
      + (MeliMapper.mapBatch server.toLowercase items).2.length = items.length := by
  rw [MeliMapper.mapBatch_eq]
  induction items with
  | nil => rfl
  | cons item items ih =>
    cases hmap : MeliMapper.map server.toLowercase item with
    | ok doc =>
      simp only [List.filterMap_cons, hmap, Except.toOption, List.length_cons] at ih ⊢
      omega
    | error e =>
      simp only [List.filterMap_cons, hmap, Except.toOption, List.length_cons] at ih ⊢
      omega

theorem isEmpty_eq_false {s : String} (h : s ≠ "") : s.isEmpty = false := by
  cases hempty : s.isEmpty with
  | false => rfl
  | true => exact absurd (String.isEmpty_iff.mp hempty) h

/-! ## 4. One request -/

/-- A catalogue that is not taken is turned away. -/
theorem rejects_ingest {items : List MeliItem} (h : server.catalogueDocs items = none) :
    server.Rejects (server.ingest items) := by
  unfold ingest
  split
  · exact rejects_rejected _ _
  · split
    · exact rejects_rejected _ _
    · next hmany =>
      have hnil : (MeliMapper.mapBatch server.toLowercase items).1 = [] := by
        by_contra hsome
        simp only [catalogueDocs] at h
        rw [if_neg (not_or.mpr ⟨hsome, hmany⟩)] at h
        cases h
      have hzero : (MeliMapper.mapBatch server.toLowercase items).1.length = 0 := by
        rw [hnil]
        rfl
      simp only [hzero, if_true]
      exact rejects_rejected _ _

/-- **What is turned away** changes nothing. -/
theorem rejects_of_call_eq_none {request : HttpRequest} (h : server.call request = none) :
    server.Rejects (server.handle request) := by
  cases request with
  | search request =>
    have hnot : ¬ request.Admitted := fun hadmitted => by simp [call, hadmitted] at h
    show server.Rejects (server.search request)
    unfold search
    split
    · exact rejects_rejected _ _
    · split
      · exact rejects_rejected _ _
      · next hquery hlimit => exact absurd ⟨Nat.not_lt.mp hquery, Nat.not_lt.mp hlimit⟩ hnot
  | indexDoc doc =>
    have htitle : doc.title = "" := by
      by_contra htitle
      simp [call, htitle] at h
    show server.Rejects (server.indexDoc doc)
    rw [indexDoc, if_pos (String.isEmpty_iff.mpr htitle)]
    exact rejects_rejected _ _
  | bulkIndex docs =>
    show server.Rejects (server.bulkIndex docs)
    unfold bulkIndex
    split
    · exact rejects_rejected _ _
    · split
      · exact rejects_rejected _ _
      · split
        · exact rejects_rejected _ _
        · next hnil hmany htitles =>
          have hnone : docs ≠ [] := fun heq => hnil (List.isEmpty_iff.mpr heq)
          have htitled : ¬ ∃ doc ∈ docs, doc.title = "" := by
            rintro ⟨doc, hdoc, htitle⟩
            exact htitles (List.any_eq_true.mpr ⟨doc, hdoc, String.isEmpty_iff.mpr htitle⟩)
          rw [call, if_neg (not_or.mpr ⟨hnone, not_or.mpr ⟨hmany, htitled⟩⟩)] at h
          cases h
  | meliBulk contentType body =>
    show server.Rejects (server.meliBulk contentType body)
    rw [call, Option.map_eq_none_iff] at h
    unfold meliBulk
    split
    · exact rejects_rejected _ _
    · next items hitems =>
      rw [hitems] at h
      exact rejects_ingest h
  | deleteDoc id => cases h
  | flushAll => cases h
  | reindexAll => cases h

/-- A catalogue that is taken is indexed, as far as it can be mapped. -/
theorem ingest_of_taken (hinv : ∀ i, Inv (engines i)) {items : List MeliItem}
    {docs : List Document} (h : server.catalogueDocs items = some docs) :
    ∃ skipped, server.ingest items engines
        = (.ok (.ingested docs.length skipped.length skipped),
          (server.router.bulkIndex docs engines).2) ∧
      docs.length + skipped.length = items.length := by
  simp only [catalogueDocs, Option.ite_none_left_eq_some, Option.some.injEq, not_or] at h
  obtain ⟨⟨hsome, hmany⟩, rfl⟩ := h
  have hne : items ≠ [] := fun hnil => hsome (by rw [hnil]; rfl)
  have hpositive : (MeliMapper.mapBatch server.toLowercase items).1.length ≠ 0 := fun hzero =>
    hsome (List.eq_nil_of_length_eq_zero hzero)
  refine ⟨(MeliMapper.mapBatch server.toLowercase items).2.map MappingError.toString, ?_, ?_⟩
  · simp only [ingest, if_neg (fun hempty => hne (List.isEmpty_iff.mp hempty)), if_neg hmany,
      if_neg hpositive]
    exact answered_eq (Router.bulkIndex_fst hinv _)
  · rw [List.length_map, length_mapBatch]

/-- **What is accepted** does its call, which succeeds. -/
theorem handle_of_call_eq_some (hinv : ∀ i, Inv (engines i)) {request : HttpRequest}
    {call : Router.Call server.router.shards} (h : server.call request = some call) :
    ∃ reply, server.handle request engines = (.ok reply, server.router.after engines call) ∧
      server.Accounts engines reply request := by
  cases request with
  | search request =>
    rw [HttpServer.call, Option.ite_none_right_eq_some] at h
    obtain ⟨⟨hquery, hlimit⟩, hcall⟩ := h
    obtain rfl := Option.some.inj hcall
    obtain ⟨response, hok⟩ := Router.exists_searchLocal hinv request
    refine ⟨.results response, ?_, response, hok, rfl⟩
    show server.search request engines = _
    rw [search, if_neg (Nat.not_lt.mpr hquery), if_neg (Nat.not_lt.mpr hlimit)]
    exact answered_eq hok
  | indexDoc doc =>
    rw [HttpServer.call, Option.ite_none_left_eq_some] at h
    obtain ⟨htitle, hcall⟩ := h
    obtain rfl := Option.some.inj hcall
    refine ⟨.success, ?_, rfl⟩
    show server.indexDoc doc engines = _
    rw [indexDoc, isEmpty_eq_false htitle, if_neg Bool.false_ne_true,
      answered_eq (Router.index_fst hinv doc)]
    rfl
  | bulkIndex docs =>
    rw [HttpServer.call, Option.ite_none_left_eq_some] at h
    obtain ⟨hnot, hcall⟩ := h
    obtain rfl := Option.some.inj hcall
    obtain ⟨hnil, hnot⟩ := not_or.mp hnot
    obtain ⟨hmany, htitles⟩ := not_or.mp hnot
    have hany : docs.any (fun d => d.title.isEmpty) = false := by
      rw [List.any_eq_false]
      exact fun doc hdoc hempty => htitles ⟨doc, hdoc, String.isEmpty_iff.mp hempty⟩
    refine ⟨.indexed (UInt32.ofNat docs.length), ?_, _, rfl, ?_⟩
    · show server.bulkIndex docs engines = _
      rw [bulkIndex, if_neg (fun hempty => hnil (List.isEmpty_iff.mp hempty)), if_neg hmany, hany,
        if_neg Bool.false_ne_true, answered_eq (Router.bulkIndex_fst hinv docs)]
      rfl
    · exact UInt32.toNat_ofNat_of_lt' (by simp only [UInt32.size]; omega)
  | meliBulk contentType body =>
    rw [HttpServer.call, Option.map_eq_some_iff] at h
    obtain ⟨docs, hdocs, rfl⟩ := h
    obtain ⟨items, hitems, htaken⟩ := Option.bind_eq_some_iff.mp hdocs
    have hok : body.bind (server.items contentType) = .ok items := by
      cases hbody : body.bind (server.items contentType) with
      | error e => rw [hbody] at hitems; cases hitems
      | ok items' =>
        rw [hbody] at hitems
        rw [show items' = items from Option.some.inj hitems]
    obtain ⟨skipped, hingest, hlength⟩ := ingest_of_taken hinv htaken
    refine ⟨_, ?_, items, docs, skipped, hok, htaken, rfl, hlength⟩
    show server.meliBulk contentType body engines = _
    rw [meliBulk, hok]
    exact hingest
  | deleteDoc id =>
    obtain rfl := Option.some.inj h
    exact ⟨.success, answered_eq (Router.delete_fst hinv id), rfl⟩
  | flushAll =>
    obtain rfl := Option.some.inj h
    exact ⟨.flushed, answered_eq (Router.flush_fst hinv), rfl⟩
  | reindexAll =>
    obtain rfl := Option.some.inj h
    exact ⟨_, answered_eq (Router.reindex_fst hinv), rfl⟩

/-! ## 5. Runs -/

variable (server) in
/-- The shards after some requests, from new ones on. -/
def served (writeBufferSize : Nat) (searcher : MultiSegmentSearcher)
    (requests : List HttpRequest) : Fin server.router.shards → ShardEngine :=
  LabelledRun.run (fun engines request => (server.handle request engines).2)
    (fun _ => openDisk writeBufferSize searcher Disk.empty) requests

/-- **Requests do what their calls do.** -/
theorem served_eq (writeBufferSize : Nat) (searcher : MultiSegmentSearcher)
    (requests : List HttpRequest) : server.served writeBufferSize searcher requests
      = server.router.ranTasks writeBufferSize searcher
          ((requests.filterMap server.call).flatMap server.router.tasks) := by
  induction requests using List.reverseRecOn with
  | nil => rfl
  | append_singleton requests request ih =>
    have hstep : server.served writeBufferSize searcher (requests ++ [request])
        = (server.handle request (server.served writeBufferSize searcher requests)).2 := by
      rw [served, LabelledRun.run_append]
      rfl
    rw [hstep, List.filterMap_append, List.flatMap_append, Router.ranTasks,
      LabelledRun.run_append]
    cases hcall : server.call request with
    | none =>
      obtain ⟨failure, -, hrejects⟩ := rejects_of_call_eq_none hcall
      have hnone : [request].filterMap server.call = [] := by simp [hcall]
      rw [hrejects, hnone, ih]
      rfl
    | some call =>
      have hinv := server.router.inv_ranTasks writeBufferSize searcher
        ((requests.filterMap server.call).flatMap server.router.tasks)
      rw [← ih] at hinv
      obtain ⟨reply, hreply, -⟩ := handle_of_call_eq_some hinv hcall
      have hone : [request].filterMap server.call = [call] := by simp [hcall]
      rw [hreply, hone, List.flatMap_singleton, server.router.run_tasks _ call (.refl _), ih]
      rfl

variable (server) in
/-- **A catalogue with an item a line** is taken as a whole.  If some line that is not blank is no
item, the reply is a bad request that names the first such line, and nothing is indexed.  Otherwise
it is turned away as well if it has no item, too many, or none with a document; or every line that
is not blank is indexed, or skipped with an error of its own. -/
theorem catalogue_answered (writeBufferSize : Nat) (searcher : MultiSegmentSearcher)
    (requests : List HttpRequest) {contentType : Option String} {body : List UInt8} {text : String}
    (hjsonl : isJsonl contentType = true) (htext : server.fromUtf8 body = .ok text) :
    let engines := server.served writeBufferSize searcher requests
    let written := (Lines.lines text.toList).filter (fun line => Lines.Written line)
    let answer := server.handle (.meliBulk contentType (.ok body)) engines
    (∃ before line after e, Lines.lines text.toList = before ++ line :: after ∧
      Lines.Written line ∧ server.parseItem (String.ofList (Lines.trim line)) = .error e ∧
      (∀ earlier ∈ before, Lines.Written earlier →
        ∃ item, Lines.Holds server.parseItem earlier item) ∧
      answer = (.error ⟨.badRequest, Lines.report (before.length + 1) e, none⟩, engines)) ∨
    ∃ items, List.Forall₂ (Lines.Holds server.parseItem) written items ∧
      ((server.catalogueDocs items = none ∧ ∃ failure, failure.status = .badRequest ∧
          answer = (.error failure, engines)) ∨
        ∃ docs skipped, server.catalogueDocs items = some docs ∧
          answer = (.ok (.ingested docs.length skipped.length skipped),
            server.router.after engines (.bulkIndex docs)) ∧
          docs.length + skipped.length = written.length) := by
  intro engines written answer
  have hinv : ∀ i, Inv (engines i) := by
    have hran := server.router.inv_ranTasks writeBufferSize searcher
      ((requests.filterMap server.call).flatMap server.router.tasks)
    rwa [← served_eq] at hran
  have hitems : server.items contentType body = Lines.parseText server.parseItem text := by
    rw [items, if_pos hjsonl, parseJsonl, htext]
    rfl
  have hanswer : answer = server.meliBulk contentType (.ok body) engines := rfl
  have hbody : (Except.ok body : Except String (List UInt8)).bind (server.items contentType)
      = server.items contentType body := rfl
  cases hparsed : Lines.parseText server.parseItem text with
  | error message =>
    obtain ⟨before, line, after, e, hlines, hwritten, herror, rfl, hearlier⟩ :=
      Lines.parseFrom_eq_error_iff.mp hparsed
    refine Or.inl ⟨before, line, after, e, hlines, hwritten, herror, hearlier, ?_⟩
    rw [hanswer, meliBulk, hbody, hitems, hparsed, Nat.zero_add]
    rfl
  | ok items =>
    obtain ⟨new, hnew, hholds⟩ := Lines.parseFrom_eq_ok_iff.mp hparsed
    obtain rfl : items = new := hnew
    refine Or.inr ⟨items, hholds, ?_⟩
    have hingest : answer = server.ingest items engines := by
      rw [hanswer, meliBulk, hbody, hitems, hparsed]
    cases hdocs : server.catalogueDocs items with
    | none =>
      obtain ⟨failure, hstatus, hrejects⟩ := rejects_ingest hdocs
      exact Or.inl ⟨rfl, failure, hstatus, hingest.trans (hrejects engines)⟩
    | some docs =>
      obtain ⟨skipped, heq, hlength⟩ := ingest_of_taken hinv hdocs
      exact Or.inr ⟨docs, skipped, rfl, hingest.trans heq, hlength.trans hholds.length_eq.symm⟩

/-- A server of one shard that is given no items: `serde_json` expects a value. -/
def noItems : HttpServer where
  router := .single
  fromUtf8 bytes := if bytes.all (fun b => b < 128)
    then .ok (String.ofList (bytes.map (fun b => Char.ofNat b.toNat)))
    else .error "invalid utf-8 sequence"
  parseItem _ := .error "expected value at line 1 column 1"
  parseItems _ := .error "expected value at line 1 column 1"
  toLowercase := id
  describe _ := "I/O error"

/-- A blank line, and one with an "x". -/
theorem catalogue_answered_x :
    let engines := noItems.served 1000 .unscored []
    let written := (Lines.lines "\nx\n".toList).filter (fun line => Lines.Written line)
    let answer := noItems.handle (.meliBulk (some "application/x-ndjson") (.ok [10, 120, 10]))
      engines
    (∃ before line after e, Lines.lines "\nx\n".toList = before ++ line :: after ∧
      Lines.Written line ∧ noItems.parseItem (String.ofList (Lines.trim line)) = .error e ∧
      (∀ earlier ∈ before, Lines.Written earlier →
        ∃ item, Lines.Holds noItems.parseItem earlier item) ∧
      answer = (.error ⟨.badRequest, Lines.report (before.length + 1) e, none⟩, engines)) ∨
    ∃ items, List.Forall₂ (Lines.Holds noItems.parseItem) written items ∧
      ((noItems.catalogueDocs items = none ∧ ∃ failure, failure.status = .badRequest ∧
          answer = (.error failure, engines)) ∨
        ∃ docs skipped, noItems.catalogueDocs items = some docs ∧
          answer = (.ok (.ingested docs.length skipped.length skipped),
            noItems.router.after engines (.bulkIndex docs)) ∧
          docs.length + skipped.length = written.length) :=
  noItems.catalogue_answered 1000 .unscored [] (by decide) (by decide)

end HttpServer

end ZearchEngine
