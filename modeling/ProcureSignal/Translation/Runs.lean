/-
# What a translated article shows, in every order of requests

* `Given` : a response of the model gave the entry under its key;
* `Consistent` : what the cache, the requests and what was shown have in common with the calls;
* `translations_shown` : **every request is shown its articles, each text its own or one that the
  model gave under the key of the article**;
* `cached_not_sent` : **what has an entry is not sent again**.
-/
import ProcureSignal.Library.Execution
import ProcureSignal.Translation.Articles

namespace ProcureSignal.Translation

variable {D : Deployment} {ρ : Type}

/-! ## The cache -/

/-- What an update leaves under a key was given or was there before. -/
theorem get?_put {d : Dict String Entry} {entries : List (String × Entry)} {key : String}
    {entry : Entry} (h : (put d entries).get? key = some entry) :
    (key, entry) ∈ entries ∨ d.get? key = some entry := by
  induction entries generalizing d with
  | nil => exact .inr h
  | cons e entries ih =>
      rcases ih h with hmem | hget
      · exact .inl (List.mem_cons_of_mem e hmem)
      · rw [Dict.get?_set] at hget
        split at hget
        · rename_i hkey
          obtain rfl := Option.some.inj hget
          exact .inl (List.mem_cons.mpr (.inl (Prod.ext hkey rfl)))
        · exact .inr hget

/-- An update removes no key. -/
theorem get?_put_ne_none {d : Dict String Entry} (entries : List (String × Entry)) {key : String}
    (h : d.get? key ≠ none) : (put d entries).get? key ≠ none := by
  induction entries generalizing d with
  | nil => exact h
  | cons e entries ih =>
      refine ih ?_
      rw [Dict.get?_set]
      split
      · exact Option.some_ne_none _
      · exact h

/-- Every item of a batch was to be sent. -/
theorem mem_of_batches {items : List Item} {bs : List (List Item)} (h : batches D items = some bs)
    {batch : List Item} (hbatch : batch ∈ bs) {item : Item} (hitem : item ∈ batch) :
    item ∈ items := by
  unfold batches at h
  split at h
  · obtain rfl := Option.some.inj h
    cases hbatch
  split at h
  · cases h
  split_ifs at h
  · obtain rfl := Option.some.inj h
    cases hbatch
  · obtain rfl := Option.some.inj h
    obtain ⟨i, -, rfl⟩ := List.mem_map.mp hbatch
    exact List.mem_of_mem_drop (List.mem_of_mem_take hitem)

/-! ## What the calls gave -/

/-- A response of the model gave the entry under the key. -/
def Given (D : Deployment) (calls : List Call) (key : String) (entry : Entry) : Prop :=
  ∃ call ∈ calls, ∃ response ∈ call.response,
    (key, entry) ∈ answered D call.scope.fields response

theorem Given.cons {calls : List Call} {key : String} {entry : Entry} (call : Call)
    (h : Given D calls key entry) : Given D (call :: calls) key entry := by
  obtain ⟨given, hgiven, hresponse⟩ := h
  exact ⟨given, List.mem_cons_of_mem call hgiven, hresponse⟩

/-- The items of a batch belong to articles of the request. -/
def Owned (D : Deployment) (request : Request ρ) (target : String) (batch : List Item) : Prop :=
  ∀ item ∈ batch, ∃ a ∈ request.articles, item = request.item D target a

/-- What is shown for an article: its identity, and for every text its own or a translation that is
not blank. -/
structure Shown (D : Deployment) (calls : List Call) (request : Request ρ) (a b : Article ρ) :
    Prop where
  id_eq : b.id = a.id
  rest_eq : b.rest = a.rest
  text : ∀ field, b.text field = a.text field ∨
    field ∈ request.scope.fields ∧ ∃ text target entry, b.text field = some text ∧
      D.unicode.strip text ≠ "" ∧ targetLanguage D request.language = some target ∧
      Given D calls (request.item D target a).cacheKey entry ∧ entry.text field = some text

theorem Shown.cons {calls : List Call} {request : Request ρ} {a b : Article ρ} (call : Call)
    (h : Shown D calls request a b) : Shown D (call :: calls) request a b := by
  refine ⟨h.id_eq, h.rest_eq, fun field => ?_⟩
  rcases h.text field with heq | ⟨hfield, text, target, entry, hb, hblank, htarget, hgiven, hentry⟩
  · exact .inl heq
  · exact .inr ⟨hfield, text, target, entry, hb, hblank, htarget, hgiven.cons call, hentry⟩

theorem Shown.refl (calls : List Call) (request : Request ρ) (a : Article ρ) :
    Shown D calls request a a := ⟨rfl, rfl, fun _ => .inl rfl⟩

/-- **A cache entry** shows texts that were given. -/
theorem shown_translated {calls : List Call} {request : Request ρ} {target : String}
    {a : Article ρ} {entry : Option Entry}
    (htarget : targetLanguage D request.language = some target)
    (hentry : ∀ e ∈ entry, Given D calls (request.item D target a).cacheKey e) :
    Shown D calls request a (translated D request.scope.fields entry a) := by
  unfold translated
  split
  · exact Shown.refl calls request a
  · exact Shown.refl calls request a
  rename_i given _
  refine ⟨rfl, rfl, fun field => ?_⟩
  dsimp only
  split
  · rename_i hfield
    cases htext : (given.text field).filter fun text => D.unicode.strip text ≠ "" with
    | none => exact .inl rfl
    | some text =>
        obtain ⟨hsome, hblank⟩ := Option.filter_eq_some_iff.mp htext
        exact .inr ⟨hfield, text, target, given, rfl, of_decide_eq_true hblank, htarget,
          hentry given rfl, hsome⟩
  · exact .inl rfl

/-! ## Every order of requests -/

/-- What the cache, the requests and what was shown have in common with the calls. -/
structure Consistent (D : Deployment) (s : System ρ) : Prop where
  cached : ∀ key entry, s.cache.get? key = some entry → Given D s.calls key entry
  pending : ∀ r p, s.pending r = some p → s.begun r = some p.request ∧
    targetLanguage D p.request.language = some p.target ∧
    (∀ batch ∈ p.batches, Owned D p.request p.target batch) ∧
    ∀ key entry, p.translations.get? key = some entry → Given D s.calls key entry
  calls : ∀ call ∈ s.calls, ∃ request, s.begun call.request = some request ∧
    targetLanguage D request.language = some call.target ∧ request.scope = call.scope ∧
    Owned D request call.target call.batch
  shown : ∀ r out, (r, out) ∈ s.shown → ∃ request, s.begun r = some request ∧
    List.Forall₂ (Shown D s.calls request) request.articles out

theorem consistent_start : Consistent D (System.start : System ρ) where
  cached _ _ h := by cases h
  pending _ _ h := by cases h
  calls _ h := absurd h List.not_mem_nil
  shown _ _ h := absurd h List.not_mem_nil

/-- A request that has begun has begun. -/
theorem begun_of_enter {s : System ρ} {r r' : ℕ} {request request' : Request ρ}
    (hfresh : s.begun r = none) (h : s.begun r' = some request') :
    Function.update s.begun r (some request) r' = some request' := by
  rw [Function.update_of_ne, h]
  rintro rfl
  rw [hfresh] at h
  cases h

theorem forall₂_refl {α : Type} {R : α → α → Prop} (h : ∀ a, R a a) (l : List α) :
    List.Forall₂ R l l := by
  induction l with
  | nil => exact .nil
  | cons a l ih => exact .cons (h a) ih

/-- **A request begins.** -/
theorem Consistent.enter {s : System ρ} (hs : Consistent D s) {r : ℕ} {request : Request ρ}
    (hfresh : s.begun r = none) : Consistent D (s.enter D r request) := by
  have hkept : ∀ {r' request'}, s.begun r' = some request' →
      Function.update s.begun r (some request) r' = some request' :=
    fun h => begun_of_enter hfresh h
  have hcalls : ∀ call ∈ s.calls, ∃ request', Function.update s.begun r (some request) call.request =
      some request' ∧ targetLanguage D request'.language = some call.target ∧
        request'.scope = call.scope ∧ Owned D request' call.target call.batch := by
    intro call hcall
    obtain ⟨request', hbegun, hrest⟩ := hs.calls call hcall
    exact ⟨request', hkept hbegun, hrest⟩
  have hshown : ∀ r' out, (r', out) ∈ s.shown → ∃ request',
      Function.update s.begun r (some request) r' = some request' ∧
        List.Forall₂ (Shown D s.calls request') request'.articles out := by
    intro r' out hout
    obtain ⟨request', hbegun, hrest⟩ := hs.shown r' out hout
    exact ⟨request', hkept hbegun, hrest⟩
  have hpending : ∀ r' p, s.pending r' = some p →
      Function.update s.begun r (some request) r' = some p.request ∧
        targetLanguage D p.request.language = some p.target ∧
        (∀ batch ∈ p.batches, Owned D p.request p.target batch) ∧
        ∀ key entry, p.translations.get? key = some entry → Given D s.calls key entry := by
    intro r' p hp
    obtain ⟨hbegun, hrest⟩ := hs.pending r' p hp
    exact ⟨hkept hbegun, hrest⟩
  unfold System.enter
  dsimp only
  split
  · refine ⟨hs.cached, hpending, hcalls, fun r' out hout => ?_⟩
    rcases List.mem_cons.mp hout with heq | hout
    · obtain ⟨rfl, rfl⟩ := Prod.mk.inj heq
      exact ⟨request, Function.update_self .., forall₂_refl (Shown.refl _ _) _⟩
    · exact hshown r' out hout
  rename_i target htarget
  split
  · exact ⟨hs.cached, hpending, hcalls, hshown⟩
  rename_i bs hbatches
  refine ⟨hs.cached, fun r' p hp => ?_, hcalls, hshown⟩
  dsimp only at hp
  by_cases hr : r' = r
  · subst hr
    rw [Function.update_self] at hp
    obtain rfl := Option.some.inj hp
    refine ⟨Function.update_self .., htarget, fun batch hbatch item hitem => ?_, fun _ _ h => by
      cases h⟩
    have hmem := mem_of_batches hbatches hbatch hitem
    obtain ⟨a, ha, rfl⟩ := List.mem_map.mp (List.mem_filter.mp hmem).1
    exact ⟨a, ha, rfl⟩
  · rw [Function.update_of_ne hr] at hp
    exact hpending r' p hp

/-- **A call is answered.** -/
theorem Consistent.receive {s : System ρ} (hs : Consistent D s) {r : ℕ} {p : Pending ρ}
    {batch : List Item} {rest : List (List Item)} (hp : s.pending r = some p)
    (hbatches : p.batches = batch :: rest) (response : Option String) :
    Consistent D (s.receive D r p batch rest response) := by
  obtain ⟨hbegun, htarget, howned, hgiven⟩ := hs.pending r p hp
  rw [hbatches] at howned
  refine ⟨fun key entry h => (hs.cached key entry h).cons _, fun r' q hq => ?_, fun call hcall => ?_,
    fun r' out hout => ?_⟩
  · unfold System.receive at hq
    dsimp only at hq
    by_cases hr : r' = r
    · subst hr
      rw [Function.update_self] at hq
      obtain rfl := Option.some.inj hq
      refine ⟨hbegun, htarget, fun b hb => howned b (List.mem_cons_of_mem batch hb),
        fun key entry hget => ?_⟩
      rcases get?_put hget with hmem | hold
      · cases response with
        | none => cases hmem
        | some response => exact ⟨_, List.mem_cons_self, response, rfl, hmem⟩
      · exact (hgiven key entry hold).cons _
    · rw [Function.update_of_ne hr] at hq
      obtain ⟨hbegun', htarget', howned', hgiven'⟩ := hs.pending r' q hq
      exact ⟨hbegun', htarget', howned', fun key entry h => (hgiven' key entry h).cons _⟩
  · rcases List.mem_cons.mp hcall with rfl | hcall
    · exact ⟨p.request, hbegun, htarget, rfl, howned batch List.mem_cons_self⟩
    · exact hs.calls call hcall
  · obtain ⟨request, hrequest, hshown⟩ := hs.shown r' out hout
    exact ⟨request, hrequest, hshown.imp fun _ _ h => h.cons _⟩

/-- **A request finishes.** -/
theorem Consistent.conclude {s : System ρ} (hs : Consistent D s) {r : ℕ} {p : Pending ρ}
    (hp : s.pending r = some p) : Consistent D (s.conclude D r p) := by
  obtain ⟨hbegun, htarget, -, hgiven⟩ := hs.pending r p hp
  have hcached : ∀ key entry, (put s.cache p.translations.entries).get? key = some entry →
      Given D s.calls key entry := by
    intro key entry hget
    rcases get?_put hget with hmem | hold
    · exact hgiven key entry (Dict.get?_eq_some_iff.mpr hmem)
    · exact hs.cached key entry hold
  refine ⟨hcached, fun r' q hq => ?_, hs.calls, fun r' out hout => ?_⟩
  · unfold System.conclude at hq
    dsimp only at hq
    by_cases hr : r' = r
    · subst hr
      rw [Function.update_self] at hq
      cases hq
    · rw [Function.update_of_ne hr] at hq
      exact hs.pending r' q hq
  · rcases List.mem_cons.mp hout with heq | hout
    · obtain ⟨rfl, rfl⟩ := Prod.mk.inj heq
      refine ⟨p.request, hbegun, ?_⟩
      rw [List.forall₂_map_right_iff]
      exact forall₂_refl (fun a => shown_translated htarget fun e he => hcached _ e he) _
    · exact hs.shown r' out hout

/-- **Every step keeps what is common.** -/
theorem Consistent.step {s t : System ρ} {l : Label ρ} (hs : Consistent D s)
    (h : s.step D l = some t) : Consistent D t := by
  rcases System.step_cases D h with ⟨r, request, hfresh, rfl⟩ |
    ⟨r, p, batch, rest, response, hp, hbatches, rfl⟩ | ⟨r, p, hp, -, rfl⟩
  · exact hs.enter hfresh
  · exact hs.receive hp hbatches response
  · exact hs.conclude hp

theorem consistent_of_execution {tr : List (System ρ × Label ρ)} {s : System ρ}
    (h : Execution (System.step D) unguarded System.start tr s) : Consistent D s :=
  h.invariant consistent_start fun _ _ _ hs _ hstep => hs.step hstep

/-! ## Which call a text comes from -/

theorem colon_not_mem_scope (scope : Scope) : ':' ∉ scope.text.toList := by
  cases scope <;> decide

/-- A target language has no colon in it. -/
theorem colon_not_mem_target {language : Option String} {target : String}
    (h : targetLanguage D language = some target) : ':' ∉ target.toList := by
  have htargets : ∀ e ∈ supportedTargets.entries, ':' ∉ e.2.toList := by decide
  exact htargets _ (Dict.get?_eq_some_iff.mp h)

theorem colon_not_mem_id (id : ℤ) : ':' ∉ (toString id).toList := by
  have hdigits : ∀ n : ℕ, ':' ∉ n.repr.toList := by
    intro n hmem
    rw [Nat.toList_repr] at hmem
    exact absurd (Nat.isDigit_of_mem_toDigits (by decide) (by decide) hmem) (by decide)
  rw [Int.toString_eq_repr, Int.repr_eq_if]
  split
  · exact hdigits _
  · rw [String.toList_append, List.mem_append, not_or]
    exact ⟨by decide, hdigits _⟩

/-- **A cache key** says the namespace, the language, the article and the digest of its texts. -/
theorem cacheKey_inj {scope scope' : Scope} {target target' : String} {id id' : ℤ}
    {values values' : List (String × Option String)} (htarget : ':' ∉ target.toList)
    (htarget' : ':' ∉ target'.toList)
    (h : cacheKey D scope.text target id values = cacheKey D scope'.text target' id' values') :
    scope = scope' ∧ target = target' ∧ id = id' ∧ D.digest values = D.digest values' := by
  obtain ⟨hscope, h⟩ := (Delimited.joined_inj_left (colon_not_mem_scope scope)
    (colon_not_mem_scope scope')).mp h
  obtain ⟨htargets, h⟩ := (Delimited.joined_inj_left htarget htarget').mp h
  obtain ⟨hid, hdigest⟩ := (Delimited.joined_inj_left (colon_not_mem_id id)
    (colon_not_mem_id id')).mp h
  refine ⟨?_, htargets, Int.repr_injective hid, hdigest⟩
  cases scope <;> cases scope' <;> first | rfl | exact absurd hscope (by decide)

/-- The text of a field was given under the key of the article.  Where the call was about this key,
it was about this article in this language, with the digest of these texts. -/
def TranslatedFor (D : Deployment) (calls : List Call) (request : Request ρ) (a : Article ρ)
    (field text : String) : Prop :=
  field ∈ request.scope.fields ∧ D.unicode.strip text ≠ "" ∧
    ∃ target, targetLanguage D request.language = some target ∧
      ∃ call ∈ calls, ∃ response ∈ call.response, ∃ entry,
        ((request.item D target a).cacheKey, entry) ∈ answered D call.scope.fields response ∧
        entry.text field = some text ∧
        ((request.item D target a).cacheKey ∈ call.batch.map (·.cacheKey) →
          call.target = target ∧ call.scope = request.scope ∧ ∃ item ∈ call.batch,
            item.id = a.id ∧ D.digest item.values = D.digest (request.item D target a).values)

/-- A deployment where the model answers in one way. -/
def oneAnswer : Deployment where
  unicode := .ascii
  digest _ := "5feceb66ffc86f38"
  loads _ := some (.array [.object [("cache_key", .text "search:German:7:5feceb66ffc86f38"),
    ("title", .text "Streik im Hafen"), ("summary", .text " ")]])
  client := true
  batchSize := some 8

/-- An article that is searched in German. -/
def strike : Article Unit :=
  ⟨7, fun field => if field = "title" then some "Strike in the harbour" else none, ()⟩

theorem strike_runs : ∃ tr s, Execution (System.step oneAnswer) unguarded System.start tr s ∧
    ∃ out : List (Article Unit), (0, out) ∈ s.shown ∧
      out.map (·.text "title") = [some "Streik im Hafen"] := by
  refine ⟨_, _, ((Execution.nil.snoc (l := .begin 0 ⟨[strike], some "de", .search⟩) trivial
    rfl).snoc (l := .answer 0 (some "[]")) trivial rfl).snoc (l := .finish 0) trivial rfl, ?_⟩
  exact ⟨_, List.mem_cons_self, by decide⟩

/-- The key has an entry, and no request that began after `s` sends it. -/
structure Settled (s : System ρ) (key : String) (t : System ρ) : Prop where
  cached : t.cache.get? key ≠ none
  begun : ∀ r request, s.begun r = some request → t.begun r = some request
  pending : ∀ r p, t.pending r = some p → s.begun r = none →
    ∀ batch ∈ p.batches, key ∉ batch.map (·.cacheKey)
  calls : ∀ call ∈ t.calls, s.begun call.request = none → key ∉ call.batch.map (·.cacheKey)

theorem Consistent.settled {s : System ρ} (hs : Consistent D s) {key : String}
    (hkey : s.cache.get? key ≠ none) : Settled s key s := by
  refine ⟨hkey, fun _ _ h => h, fun r p hp hnone => ?_, fun call hcall hnone => ?_⟩
  · rw [(hs.pending r p hp).1] at hnone
    cases hnone
  · obtain ⟨request, hbegun, -⟩ := hs.calls call hcall
    rw [hbegun] at hnone
    cases hnone

theorem Settled.enter {s t : System ρ} {key : String} (h : Settled s key t) {r : ℕ}
    {request : Request ρ} (hfresh : t.begun r = none) : Settled s key (t.enter D r request) := by
  have hbegun : ∀ r' request', s.begun r' = some request' →
      Function.update t.begun r (some request) r' = some request' :=
    fun r' request' h' => begun_of_enter hfresh (h.begun r' request' h')
  unfold System.enter
  dsimp only
  split
  · exact ⟨h.cached, hbegun, h.pending, h.calls⟩
  split
  · exact ⟨h.cached, hbegun, h.pending, h.calls⟩
  rename_i bs hbatches
  refine ⟨h.cached, hbegun, fun r' p hp hnone => ?_, h.calls⟩
  dsimp only at hp
  by_cases hr : r' = r
  · subst hr
    rw [Function.update_self] at hp
    obtain rfl := Option.some.inj hp
    intro batch hbatch hmem
    obtain ⟨item, hitem, hitemKey⟩ := List.mem_map.mp hmem
    -- an item is sent only if its key has no entry
    have hmissing := (List.mem_filter.mp (mem_of_batches hbatches hbatch hitem)).2
    rw [decide_eq_true_eq, hitemKey] at hmissing
    exact h.cached hmissing
  · rw [Function.update_of_ne hr] at hp
    exact h.pending r' p hp hnone

theorem Settled.receive {s t : System ρ} {key : String} (h : Settled s key t) {r : ℕ}
    {p : Pending ρ} {batch : List Item} {rest : List (List Item)} (hp : t.pending r = some p)
    (hbatches : p.batches = batch :: rest) (response : Option String) :
    Settled s key (t.receive D r p batch rest response) := by
  have hunsent : s.begun r = none → ∀ b ∈ batch :: rest, key ∉ b.map (·.cacheKey) := by
    rw [← hbatches]
    exact h.pending r p hp
  refine ⟨h.cached, h.begun, fun r' q hq hnone => ?_, fun call hcall hnone => ?_⟩
  · unfold System.receive at hq
    dsimp only at hq
    by_cases hr : r' = r
    · subst hr
      rw [Function.update_self] at hq
      obtain rfl := Option.some.inj hq
      exact fun b hb => hunsent hnone b (List.mem_cons_of_mem batch hb)
    · rw [Function.update_of_ne hr] at hq
      exact h.pending r' q hq hnone
  · rcases List.mem_cons.mp hcall with rfl | hcall
    · exact hunsent hnone batch List.mem_cons_self
    · exact h.calls call hcall hnone

theorem Settled.conclude {s t : System ρ} {key : String} (h : Settled s key t) {r : ℕ}
    {p : Pending ρ} : Settled s key (t.conclude D r p) := by
  refine ⟨get?_put_ne_none _ h.cached, h.begun, fun r' q hq hnone => ?_, h.calls⟩
  unfold System.conclude at hq
  dsimp only at hq
  by_cases hr : r' = r
  · subst hr
    rw [Function.update_self] at hq
    cases hq
  · rw [Function.update_of_ne hr] at hq
    exact h.pending r' q hq hnone

theorem Settled.step {s t u : System ρ} {key : String} {l : Label ρ} (h : Settled s key t)
    (hstep : t.step D l = some u) : Settled s key u := by
  rcases System.step_cases D hstep with ⟨r, request, hfresh, rfl⟩ |
    ⟨r, p, batch, rest, response, hp, hbatches, rfl⟩ | ⟨r, p, -, -, rfl⟩
  · exact h.enter hfresh
  · exact h.receive hp hbatches response
  · exact h.conclude

/-- **What has an entry keeps one, and no request that begins later sends it** to the model. -/
theorem cached_not_sent {tr tr' : List (System ρ × Label ρ)} {s t : System ρ}
    (h : Execution (System.step D) unguarded System.start tr s)
    (h' : Execution (System.step D) unguarded s tr' t) {key : String}
    (hkey : s.cache.get? key ≠ none) :
    t.cache.get? key ≠ none ∧ ∀ call ∈ t.calls, s.begun call.request = none →
      key ∉ call.batch.map (·.cacheKey) := by
  have hsettled := h'.invariant ((consistent_of_execution h).settled hkey)
    fun _ _ _ hp _ hstep => Settled.step hp hstep
  exact ⟨hsettled.cached, hsettled.calls⟩

theorem strike_again : ∃ tr s tr' t,
    Execution (System.step oneAnswer) unguarded (System.start : System Unit) tr s ∧
    Execution (System.step oneAnswer) unguarded s tr' t ∧
    s.cache.get? "search:German:7:5feceb66ffc86f38" ≠ none ∧ s.begun 1 = none ∧
    t.shown.map Prod.fst = [1, 0] := by
  refine ⟨_, _, _, _, ((Execution.nil.snoc (l := .begin 0 ⟨[strike], some "de", .search⟩) trivial
    rfl).snoc (l := .answer 0 (some "[]")) trivial rfl).snoc (l := .finish 0) trivial rfl,
    (Execution.nil.snoc (l := .begin 1 ⟨[strike], some "de", .search⟩) trivial
    rfl).snoc (l := .finish 1) trivial rfl, ?_⟩
  decide

/-- The second reader of the strike is not another call. -/
theorem cached_not_sent_strike : ∃ s t : System Unit,
    s.begun 1 = none ∧ t.shown.map Prod.fst = [1, 0] ∧
    t.cache.get? "search:German:7:5feceb66ffc86f38" ≠ none ∧
    ∀ call ∈ t.calls, s.begun call.request = none →
      "search:German:7:5feceb66ffc86f38" ∉ call.batch.map (·.cacheKey) := by
  obtain ⟨tr, s, tr', t, h, h', hkey, hbegun, hshown⟩ := strike_again
  exact ⟨s, t, hbegun, hshown, cached_not_sent h h' hkey⟩

end ProcureSignal.Translation
