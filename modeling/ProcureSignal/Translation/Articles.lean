/-
# Translations shown beside a shared cache

`api/translation.py`: the texts of articles, search results and risk events are translated by a
model, in batches, and kept in one cache for all requests.  A request stops at every call, and other
requests go on meanwhile.

* `cacheKey`, `parseTranslationResponse`, `batches`, `translated` : the parts of the source;
* `System.step` : a request begins, a call of it is answered, it finishes.
-/
import ProcureSignal.Library.Collections
import ProcureSignal.Library.Delimited
import ProcureSignal.Library.Unicode

namespace ProcureSignal.Translation

/-! ## Articles and cache entries -/

/-- A response model: its texts, by the name of the field, and what is never translated. -/
structure Article (ρ : Type) where
  id : ℤ
  text : String → Option String
  rest : ρ

/-- A cache entry: the translated texts, by field. -/
abbrev Entry := List (String × Option String)

/-- `cached.get(field)`. -/
def Entry.text (entry : Entry) (field : String) : Option String :=
  (entry.find? fun e => e.1 = field).bind (·.2)

/-- A decoded JSON value. -/
inductive Json
  | text (s : String)
  | array (items : List Json)
  | object (fields : List (String × Json))
  | other

/-- The text of a field, if it is one. -/
def Json.field (name : String) (fields : List (String × Json)) : Option String :=
  match fields.find? fun f => f.1 = name with
  | some (_, .text s) => some s
  | _ => none

/-- What surrounds the code. -/
structure Deployment where
  unicode : Unicode
  /-- the first 16 digits of the SHA-256 of the values as JSON with sorted keys -/
  digest : List (String × Option String) → String
  /-- `json.loads`, where it does not raise -/
  loads : String → Option Json
  /-- the client can be constructed -/
  client : Bool
  /-- `int(os.getenv("OPENAI_TRANSLATION_BATCH_SIZE", "8"))`, where it is a number -/
  batchSize : Option ℤ

variable (D : Deployment) {ρ : Type}

/-- `SUPPORTED_TARGETS`. -/
def supportedTargets : Dict String String :=
  Dict.empty.set "de" "German" |>.set "fr" "French" |>.set "es" "Spanish"

/-- `_target_language`. -/
def targetLanguage (language : Option String) : Option String :=
  supportedTargets.get? (D.unicode.lower (D.unicode.strip
    ((language.filter (· ≠ "")).getD "en")))

/-- `_cache_key`. -/
def cacheKey (scope target : String) (id : ℤ) (values : List (String × Option String)) : String :=
  Delimited.joined ':' scope (Delimited.joined ':' target
    (Delimited.joined ':' (toString id) (D.digest values)))

/-- An item of a request to the model. -/
structure Item where
  cacheKey : String
  id : ℤ
  values : List (String × Option String)
  deriving DecidableEq

/-! ## Calls of the model -/

/-- From the first opening bracket to the last closing one. -/
def bracketed (cs : List Char) : Option (List Char) :=
  match cs.findIdx? (· = '['), cs.reverse.findIdx? (· = ']') with
  | some start, some back =>
      let stop := cs.length - back
      if stop ≤ start then none else some ((cs.take stop).drop start)
  | _, _ => none

/-- `_parse_translation_response`. -/
def parseTranslationResponse (response : String) : List (List (String × Json)) :=
  match (bracketed response.toList).bind fun cs => D.loads (String.ofList cs) with
  | some (.array items) =>
      items.filterMap fun item => match item with
        | .object fields => some fields
        | _ => none
  | _ => []

/-- The entries that a response gives, in its order. -/
def answered (fields : List String) (response : String) : List (String × Entry) :=
  (parseTranslationResponse D response).filterMap fun item =>
    (Json.field "cache_key" item).map fun key =>
      (key, fields.map fun field => (field, Json.field field item))

/-- `dict.update`. -/
def put (d : Dict String Entry) (entries : List (String × Entry)) : Dict String Entry :=
  entries.foldl (fun d e => d.set e.1 e.2) d

/-- The slices of a list. -/
def slices (size : ℕ) (items : List Item) : List (List Item) :=
  (List.range ((items.length + size - 1) / size)).map fun i => (items.drop (i * size)).take size

/-- The batches of `_translate_missing`: none without a client, and an exception for a batch size
that is zero or no number. -/
def batches (items : List Item) : Option (List (List Item)) :=
  if items = [] ∨ D.client = false then some []
  else
    match D.batchSize with
    | none => none
    | some size => if size = 0 then none else if size < 0 then some []
        else some (slices size.toNat items)

/-! ## Requests -/

/-- What is translated: the namespace of its cache keys. -/
inductive Scope
  | feed
  | search
  | detail
  | riskEvent
  deriving DecidableEq, Repr

/-- The namespace as it is written. -/
def Scope.text : Scope → String
  | feed => "feed"
  | search => "search"
  | detail => "detail"
  | riskEvent => "risk-event"

/-- `_FEED_FIELDS`, `_DETAIL_FIELDS`, `_RISK_EVENT_FIELDS`. -/
def Scope.fields : Scope → List String
  | feed | search => ["title", "summary"]
  | detail => ["title", "summary", "description", "content_snippet"]
  | riskEvent => ["evidence_snippet", "recommendation"]

/-- The arguments of `_translate_models`. -/
structure Request (ρ : Type) where
  articles : List (Article ρ)
  language : Option String
  scope : Scope

/-- The item of an article. -/
def Request.item (request : Request ρ) (target : String) (a : Article ρ) : Item :=
  let values := request.scope.fields.map fun field => (field, a.text field)
  ⟨cacheKey D request.scope.text target a.id values, a.id, values⟩

/-- An article with the texts of its entry that are not blank. -/
def translated (fields : List String) (entry : Option Entry) (a : Article ρ) : Article ρ :=
  match entry with
  | none | some [] => a
  | some entry =>
      { a with
        text := fun field =>
          if field ∈ fields then
            ((entry.text field).filter fun text => D.unicode.strip text ≠ "").or (a.text field)
          else a.text field }

/-- A request that waits for the model. -/
structure Pending (ρ : Type) where
  request : Request ρ
  target : String
  batches : List (List Item)
  translations : Dict String Entry

/-- A call of the model, and its response unless it raised. -/
structure Call where
  request : ℕ
  target : String
  scope : Scope
  batch : List Item
  response : Option String

/-- The cache, the requests, and what has been asked and shown. -/
structure System (ρ : Type) where
  cache : Dict String Entry
  begun : ℕ → Option (Request ρ)
  pending : ℕ → Option (Pending ρ)
  calls : List Call
  shown : List (ℕ × List (Article ρ))
  raised : List ℕ

/-- What happens next. -/
inductive Label (ρ : Type)
  | begin (r : ℕ) (request : Request ρ)
  | answer (r : ℕ) (response : Option String)
  | finish (r : ℕ)

namespace System

/-- Before any request. -/
def start : System ρ := ⟨Dict.empty, fun _ => none, fun _ => none, [], [], []⟩

variable (s : System ρ)

/-- The beginning of `_translate_models`: the items without a cache entry are to be sent. -/
def enter (r : ℕ) (request : Request ρ) : System ρ :=
  let s := { s with begun := Function.update s.begun r (some request) }
  match targetLanguage D request.language with
  | none => { s with shown := (r, request.articles) :: s.shown }
  | some target =>
      let missing := (request.articles.map (request.item D target)).filter fun item =>
        s.cache.get? item.cacheKey = none
      match batches D missing with
      | none => { s with raised := r :: s.raised }
      | some batches =>
          { s with
            pending := Function.update s.pending r (some ⟨request, target, batches, Dict.empty⟩) }

/-- The next batch of a request has been answered. -/
def receive (r : ℕ) (p : Pending ρ) (batch : List Item) (rest : List (List Item))
    (response : Option String) : System ρ :=
  let entries := (response.map (answered D p.request.scope.fields)).getD []
  { s with
    pending := Function.update s.pending r
      (some { p with batches := rest, translations := put p.translations entries })
    calls := ⟨r, p.target, p.request.scope, batch, response⟩ :: s.calls }

/-- The end of `_translate_models`. -/
def conclude (r : ℕ) (p : Pending ρ) : System ρ :=
  let cache := put s.cache p.translations.entries
  { s with
    cache := cache
    pending := Function.update s.pending r none
    shown := (r, p.request.articles.map fun a =>
      translated D p.request.scope.fields (cache.get? (p.request.item D p.target a).cacheKey) a) ::
        s.shown }

/-- One step of the system. -/
def step : Label ρ → Option (System ρ)
  | .begin r request => if s.begun r = none then some (s.enter D r request) else none
  | .answer r response =>
      match s.pending r with
      | some p =>
          match p.batches with
          | batch :: rest => some (s.receive D r p batch rest response)
          | [] => none
      | none => none
  | .finish r =>
      match s.pending r with
      | some p => if p.batches = [] then some (s.conclude D r p) else none
      | none => none

/-- **What a step can do.** -/
theorem step_cases {s t : System ρ} {l : Label ρ} (h : s.step D l = some t) :
    (∃ r request, s.begun r = none ∧ t = s.enter D r request) ∨
    (∃ r p batch rest response, s.pending r = some p ∧ p.batches = batch :: rest ∧
      t = s.receive D r p batch rest response) ∨
    ∃ r p, s.pending r = some p ∧ p.batches = [] ∧ t = s.conclude D r p := by
  cases l with
  | begin r request =>
      rw [step] at h
      split_ifs at h with hfresh
      exact .inl ⟨r, request, hfresh, (Option.some.inj h).symm⟩
  | answer r response =>
      rw [step] at h
      split at h
      · rename_i p hp
        split at h
        · rename_i batch rest hbatches
          exact .inr (.inl ⟨r, p, batch, rest, response, hp, hbatches, (Option.some.inj h).symm⟩)
        · cases h
      · cases h
  | finish r =>
      rw [step] at h
      split at h
      · rename_i p hp
        split_ifs at h with hbatches
        exact .inr (.inr ⟨r, p, hp, hbatches, (Option.some.inj h).symm⟩)
      · cases h

end System

end ProcureSignal.Translation
