/-
# The normal form of a URL

`canonicalize_url` of `retrieval/deduplication.py` over the URL parsing of the standard library.
White space is stripped before the URL is split, so what stands in front of a fragment, of tracking
parameters or of a default port can end in white space afterwards.

* `standardUrls` : the parsing functions, as the standard library has them;
* `canonicalizeUrl_eq` : what is returned;
* `SameButFor`, `SameIdentity` : what may change, and what tells URLs apart;
* `normalForm_iff` : **when the result is a normal form**;
* `exposed_space` : a space in front of a fragment.
-/
import ProcureSignal.Library.Folding
import ProcureSignal.Library.Hosts
import ProcureSignal.Retrieval.Url

namespace ProcureSignal.Retrieval

open Urllib

/-! ## The standard library's parsing -/

/-- `SplitResult` with its attributes. -/
def splitUrl (U : Unicode) (parts : Split) : SplitUrl where
  scheme := parts.scheme
  username := (userinfo parts.netloc).map fun info => String.ofList (info.takeWhile (· ≠ ':'))
  password := (userinfo parts.netloc).bind fun info =>
    if ':' ∈ info then some (String.ofList (after ':' info)) else none
  hostname := hostname U parts.netloc
  port := port parts.netloc
  path := String.ofList parts.path
  query := String.ofList parts.query

/-- `urllib.parse`; `urljoin` plays no role in canonicalization. -/
def standardUrls (U : Unicode) (ipLiteral : List Char → Bool)
    (urljoin : String → String → Option String) : UrlParsing where
  urlsplit url := (urlsplit U ipLiteral url).map (splitUrl U)
  urljoin := urljoin
  parseQsl := parseQsl
  urlencode := urlencode
  urlunsplit := urlunsplit

section Fields

variable (U : Unicode) (ipLiteral : List Char → Bool) (urljoin : String → String → Option String)

@[simp] theorem standardUrls_urlsplit (url : String) :
    (standardUrls U ipLiteral urljoin).urlsplit url =
      (urlsplit U ipLiteral url).map (splitUrl U) := rfl

@[simp] theorem standardUrls_parseQsl :
    (standardUrls U ipLiteral urljoin).parseQsl = parseQsl := rfl

@[simp] theorem standardUrls_urlencode :
    (standardUrls U ipLiteral urljoin).urlencode = urlencode := rfl

@[simp] theorem standardUrls_urlunsplit :
    (standardUrls U ipLiteral urljoin).urlunsplit = urlunsplit := rfl

end Fields

/-! ## What is returned -/

/-- A segment of a query that is left out. -/
def isTracking (U : Unicode) (segment : List Char) : Bool :=
  let key := U.lower (decodePair segment).1
  key.startsWith "utm_" || key ∈ trackingParameters

/-- The segments of a query that are kept. -/
def keptSegments (U : Unicode) (query : List Char) : List (List Char) :=
  (segments query).filter (!isTracking U ·)

/-- The host in lower case. -/
def lowerHost (U : Unicode) (netloc : List Char) : List Char :=
  (U.lower (String.ofList (hostName (hostinfo netloc)))).toList

/-- The port of a scheme. -/
def defaultPort (scheme : String) : ℕ := if scheme = "https" then 443 else 80

/-- The port that is written. -/
def shownPort (scheme : String) : Option ℕ → Option ℕ
  | some n => if n = defaultPort scheme then none else some n
  | none => none

/-- The port that is connected to. -/
def effectivePort (scheme : String) (port : Option ℕ) : ℕ := port.getD (defaultPort scheme)

/-- The path and the query that are written. -/
def canonicalTail (path : List Char) (params : List (String × String)) : List Char :=
  (if path = [] then ['/'] else path) ++
    (if params = [] then [] else '?' :: (urlencode params).toList)

/-- The URL that is written. -/
def canonicalText (U : Unicode) (parts : Split) (port : Option ℕ) : List Char :=
  parts.scheme.toList ++ ':' :: '/' :: '/' ::
    (canonicalNetloc (lowerHost U parts.netloc) (shownPort parts.scheme port) ++
      canonicalTail parts.path ((keptSegments U parts.query).map decodePair))

/-- A text that does not end in white space. -/
def Trimmed (U : Unicode) (cs : List Char) : Prop := cs.rdropWhile U.isSpace = cs

/-- A URL, as it stands, is absolute with the scheme `http` or `https` and a host. -/
structure Parsed (U : Unicode) (ipLiteral : List Char → Bool) (url : String) (parts : Split)
    (p : Option ℕ) : Prop where
  split : urlsplit U ipLiteral url = some parts
  port : port parts.netloc = some p
  scheme : parts.scheme = "http" ∨ parts.scheme = "https"
  host : hostName (hostinfo parts.netloc) ≠ []

section Canonical

variable {U : Unicode} {ipLiteral : List Char → Bool} {urljoin : String → String → Option String}
  (laws : UrlLaws U ipLiteral)

theorem shownPort_eq_iff {scheme : String} {p q : Option ℕ} :
    shownPort scheme p = shownPort scheme q ↔ effectivePort scheme p = effectivePort scheme q := by
  unfold shownPort effectivePort
  cases p with
  | none =>
      cases q with
      | none => simp
      | some m => simp [eq_comm]
  | some n =>
      cases q with
      | none => simp
      | some m =>
          by_cases hn : n = defaultPort scheme <;> by_cases hm : m = defaultPort scheme <;> grind

/-- The pairs that are kept are those of the segments that are kept. -/
theorem filter_parseQsl (query : List Char) :
    (parseQsl (String.ofList query)).filter (fun p =>
      ¬ (U.lower p.1).startsWith "utm_" ∧ U.lower p.1 ∉ trackingParameters) =
      (keptSegments U query).map decodePair := by
  rw [parseQsl, String.toList_ofList, keptSegments, List.filter_map]
  refine congrArg (List.map decodePair) (List.filter_congr fun segment _ => ?_)
  unfold isTracking
  dsimp only [Function.comp_apply]
  generalize (U.lower (decodePair segment).1).startsWith "utm_" = starts
  cases starts <;> simp

theorem pathOf_head {tail : List Char} (h : tail.head?.all endsNetloc = true) :
    pathOf tail = [] ∨ ∃ rest, pathOf tail = '/' :: rest := by
  cases tail with
  | nil => exact Or.inl rfl
  | cons c rest =>
      have hc : endsNetloc c = true := by simpa using h
      simp only [endsNetloc, decide_eq_true_eq, List.mem_cons, List.not_mem_nil, or_false] at hc
      rcases hc with rfl | rfl | rfl
      · exact Or.inr ⟨_, by rw [pathOf]; rfl⟩
      · exact Or.inl rfl
      · exact Or.inl rfl

/-- The canonical network location, as it is put together. -/
theorem netloc_text (host : List Char) (scheme : String)
    (hscheme : scheme = "http" ∨ scheme = "https") (p : Option ℕ) :
    (match p with
      | some n =>
          if scheme = "https" ∧ n = 443 ∨ scheme = "http" ∧ n = 80 then
            String.ofList (bracketed host)
          else String.ofList (bracketed host) ++ ":" ++ toString n
      | none => String.ofList (bracketed host)) =
      String.ofList (canonicalNetloc host (shownPort scheme p)) := by
  cases p with
  | none => simp [shownPort, canonicalNetloc, portSuffix]
  | some n =>
      have hdefault : (scheme = "https" ∧ n = 443 ∨ scheme = "http" ∧ n = 80) ↔
          n = defaultPort scheme := by
        rcases hscheme with rfl | rfl <;> simp [defaultPort]
      simp only [hdefault, shownPort]
      split_ifs
      · simp [canonicalNetloc, portSuffix]
      · have hdigits : toString n = String.ofList (Nat.toDigits 10 n) := Nat.repr_eq_ofList_toDigits
        rw [hdigits, canonicalNetloc, portSuffix, ← String.toList_inj]
        simp

/-- `urlunsplit` for a scheme that has network locations. -/
theorem urlunsplit_text {scheme : String} (hscheme : scheme = "http" ∨ scheme = "https")
    (netloc : List Char) {path : List Char} (hpath : path = [] ∨ ∃ rest, path = '/' :: rest)
    (params : List (String × String)) :
    Urllib.urlunsplit scheme (String.ofList netloc)
      (if String.ofList path = "" then "/" else String.ofList path) (urlencode params) =
      String.ofList
        (scheme.toList ++ ':' :: '/' :: '/' :: (netloc ++ canonicalTail path params)) := by
  have hslash : ∃ rest, (if String.ofList path = "" then "/" else String.ofList path) =
      String.ofList ('/' :: rest) ∧ (if path = [] then ['/'] else path) = '/' :: rest := by
    rcases hpath with rfl | ⟨rest, rfl⟩
    · exact ⟨[], rfl, rfl⟩
    · exact ⟨rest, by simp, by simp⟩
  obtain ⟨rest, htext, hchars⟩ := hslash
  have hne : scheme ≠ "" := by rcases hscheme with rfl | rfl <;> decide
  have huses : scheme ∈ usesNetloc := by rcases hscheme with rfl | rfl <;> decide
  have hstarts : (String.ofList ('/' :: rest)).startsWith "/" = true := by simp
  rw [Urllib.urlunsplit, htext, canonicalTail, hchars, if_pos (Or.inr (Or.inl ⟨hne, huses⟩)),
    if_neg (not_and_not_right.mpr fun _ => hstarts), if_neg hne, ← String.toList_inj]
  by_cases hparams : params = []
  · rw [if_pos hparams, if_pos (urlencode_eq_empty_iff.mpr hparams)]
    simp
  · rw [if_neg hparams, if_neg fun h => hparams (urlencode_eq_empty_iff.mp h)]
    simp

include laws

theorem lower_scheme {scheme : String} (h : scheme = "http" ∨ scheme = "https") :
    U.lower scheme = scheme := by
  refine laws.lower_eq_self scheme fun c hc => ?_
  rcases h with rfl | rfl
  · have hmem : c ∈ ['h', 't', 't', 'p'] := hc
    simp only [List.mem_cons, List.not_mem_nil, or_false] at hmem
    rcases hmem with rfl | rfl | rfl | rfl <;> rfl
  · have hmem : c ∈ ['h', 't', 't', 'p', 's'] := hc
    simp only [List.mem_cons, List.not_mem_nil, or_false] at hmem
    rcases hmem with rfl | rfl | rfl | rfl | rfl <;> rfl

/-- The text that is put together from the parts of a URL. -/
theorem written_eq {parts : Split} (hscheme : parts.scheme = "http" ∨ parts.scheme = "https")
    (hpath : parts.path = [] ∨ ∃ rest, parts.path = '/' :: rest) (p : Option ℕ) :
    (let scheme := U.lower parts.scheme
      let host := U.lower ((hostname U parts.netloc).getD "")
      let hostname := if ':' ∈ host.toList then "[" ++ host ++ "]" else host
      let netloc :=
        match p with
        | some n =>
            if scheme = "https" ∧ n = 443 ∨ scheme = "http" ∧ n = 80 then hostname
            else hostname ++ ":" ++ toString n
        | none => hostname
      let query := (parseQsl (String.ofList parts.query)).filter fun p =>
        ¬ (U.lower p.1).startsWith "utm_" ∧ U.lower p.1 ∉ trackingParameters
      Urllib.urlunsplit scheme netloc
        (if String.ofList parts.path = "" then "/" else String.ofList parts.path)
        (urlencode query)) =
      String.ofList (canonicalText U parts p) := by
  have hhost : U.lower ((hostname U parts.netloc).getD "") =
      String.ofList (lowerHost U parts.netloc) := by
    rw [lowerHost, String.ofList_toList]
    exact lower_hostname laws
  have hbracketed : (if ':' ∈ (String.ofList (lowerHost U parts.netloc)).toList then
      "[" ++ String.ofList (lowerHost U parts.netloc) ++ "]"
      else String.ofList (lowerHost U parts.netloc)) =
      String.ofList (bracketed (lowerHost U parts.netloc)) := by
    rw [String.toList_ofList, bracketed]
    split_ifs <;> simp [← String.toList_inj]
  dsimp only
  rw [hhost, hbracketed, lower_scheme laws hscheme, netloc_text _ _ hscheme, filter_parseQsl,
    urlunsplit_text hscheme _ hpath]
  rfl

/-- **What is returned** for a URL with the scheme `http` or `https`. -/
theorem canonicalizeUrl_eq {url : String} {name netloc tail : List Char}
    (habsolute : Absolute (clean (U.strip url).toList) name netloc tail)
    (hscheme : U.lower (String.ofList name) = "http" ∨ U.lower (String.ofList name) = "https") :
    canonicalizeUrl U (standardUrls U ipLiteral urljoin) url =
      if netlocAllowed U ipLiteral netloc then
        (port netloc).map fun p => String.ofList (canonicalText U
          ⟨U.lower (String.ofList name), netloc, pathOf tail, queryOf tail, after '#' tail⟩ p)
      else none := by
  have hsplit := habsolute.split_eq U
  generalize hparts : (⟨U.lower (String.ofList name), netloc, pathOf tail, queryOf tail,
    after '#' tail⟩ : Split) = parts at hsplit ⊢
  have hnetloc : netloc = parts.netloc := by rw [← hparts]
  have hurlsplit : Urllib.urlsplit U ipLiteral (U.strip url) =
      if netlocAllowed U ipLiteral parts.netloc then some parts else none := by
    rw [Urllib.urlsplit, hsplit]
  have hwritten := @written_eq _ _ laws parts (by rw [← hparts]; exact hscheme)
    (by rw [← hparts]; exact pathOf_head habsolute.tail)
  rw [canonicalizeUrl, standardUrls_urlsplit, standardUrls_parseQsl, standardUrls_urlencode,
    standardUrls_urlunsplit, hurlsplit, hnetloc]
  split_ifs
  · rw [Option.map_some, Option.bind_some]
    exact congrArg (Option.map · (port parts.netloc)) (funext hwritten)
  · rfl

omit laws in
/-- The parts of an absolute URL. -/
theorem Parsed.absolute (laws : UrlLaws U ipLiteral) {url : String} {parts : Split} {p : Option ℕ}
    (h : Parsed U ipLiteral url parts p) :
    ∃ name tail, Absolute (clean url.toList) name parts.netloc tail ∧
      parts = ⟨U.lower (String.ofList name), parts.netloc, pathOf tail, queryOf tail,
        after '#' tail⟩ := by
  have hsplit := h.split
  rw [Urllib.urlsplit] at hsplit
  split_ifs at hsplit with hallowed
  have hparts := Option.some.inj hsplit
  have hscheme : (Urllib.split U (clean url.toList)).scheme ≠ "" := by
    rw [hparts]
    rcases h.scheme with h | h <;> rw [h] <;> decide
  have hnetloc : (Urllib.split U (clean url.toList)).netloc ≠ [] := by
    rw [hparts]
    intro hnil
    refine h.host ?_
    rw [hnil]
    rfl
  obtain ⟨name, tail, habsolute⟩ := exists_absolute laws.lower_empty hscheme hnetloc
  rw [hparts] at habsolute
  exact ⟨name, tail, habsolute, hparts.symm.trans (habsolute.split_eq U)⟩

omit laws in
theorem Parsed.allowed {url : String} {parts : Split} {p : Option ℕ}
    (h : Parsed U ipLiteral url parts p) : netlocAllowed U ipLiteral parts.netloc = true := by
  have hsplit := h.split
  rw [Urllib.urlsplit] at hsplit
  split_ifs at hsplit with hallowed
  rw [← Option.some.inj hsplit]
  exact hallowed

/-- What is returned for a URL that is accepted. -/
theorem canonicalizeUrl_of_parsed {url : String} {parts : Split} {p : Option ℕ}
    (h : Parsed U ipLiteral (U.strip url) parts p) :
    canonicalizeUrl U (standardUrls U ipLiteral urljoin) url =
      some (String.ofList (canonicalText U parts p)) := by
  obtain ⟨name, tail, habsolute, hparts⟩ := h.absolute laws
  have hscheme : U.lower (String.ofList name) = parts.scheme := by rw [hparts]
  rw [canonicalizeUrl_eq laws habsolute (by rw [hscheme]; exact h.scheme), if_pos h.allowed, h.port,
    Option.map_some, ← hparts]

/-- White space around a URL: what is split is the URL without the white space at its end. -/
theorem absolute_strip {url : String} {name netloc tail : List Char}
    (h : Absolute (clean url.toList) name netloc tail) :
    Absolute (clean (U.strip url).toList) name
      (if tail = [] then netloc.rdropWhile U.isSpace else netloc) (tail.rdropWhile U.isSpace) := by
  obtain ⟨c, rest, hname, hlow, hhigh⟩ := exists_head_of_isScheme h.scheme
  have hspace : U.isSpace c = false := laws.isSpace_graphic c hlow hhigh
  have hclean : clean url.toList = c :: (rest ++ ':' :: '/' :: '/' :: (netloc ++ tail)) := by
    rw [h.eq, hname, List.cons_append]
  have hstrip : (U.strip url).toList =
      (url.toList.dropWhile U.isSpace).rdropWhile U.isSpace := by
    rw [Unicode.strip, String.toList_ofList]
  rw [hstrip, clean_strip laws.isSpace_unsafe hclean hspace]
  exact h.rdropWhile fun d hd => laws.isSpace_endsNetloc hd

/-! ## White space at the end -/

omit laws in
theorem trimmed_iff {cs : List Char} :
    Trimmed U cs ↔ ∀ c ∈ cs.getLast?, U.isSpace c = false := by
  rw [Trimmed, List.rdropWhile_eq_self_iff]
  constructor
  · intro h c hc
    obtain ⟨hne, rfl⟩ := List.mem_getLast?_eq_getLast hc
    exact Bool.eq_false_iff.mpr (h hne)
  · intro h hne
    rw [h _ (List.getLast?_eq_getLast_of_ne_nil hne)]
    decide

omit laws in
theorem trimmed_concat_iff {cs : List Char} {c : Char} :
    Trimmed U (cs ++ [c]) ↔ U.isSpace c = false := by
  rw [trimmed_iff]
  simp

omit laws in
theorem trimmed_append_iff {cs : List Char} (hne : cs ≠ []) (front : List Char) :
    Trimmed U (front ++ cs) ↔ Trimmed U cs := by
  rw [trimmed_iff, trimmed_iff, List.getLast?_append_of_ne_nil _ hne]

/-- A text ends in white space exactly when it does in lower case. -/
theorem trimmed_lower_iff (cs : List Char) :
    Trimmed U (U.lower (String.ofList cs)).toList ↔ Trimmed U cs := by
  induction cs using List.reverseRecOn with
  | nil =>
      have hempty : U.lower (String.ofList []) = "" := laws.lower_empty
      rw [hempty]
      rfl
  | append_singleton cs c _ =>
      rw [trimmed_concat_iff]
      by_cases hc : U.isSpace c = true
      · rw [laws.lower_concat cs hc, String.toList_ofList, trimmed_concat_iff]
      · have hspace := Bool.eq_false_iff.mpr hc
        exact iff_of_true (trimmed_iff.mpr (laws.isSpace_lower cs c hspace)) hspace

/-- A tracking parameter stays one without white space at its end. -/
theorem isTracking_of_concat {segment : List Char} {c : Char} (hc : U.isSpace c = true)
    (h : isTracking U (segment ++ [c]) = true) : isTracking U segment = true := by
  obtain ⟨hhex, hne⟩ := laws.unescaped_of_isSpace hc
  unfold isTracking at h ⊢
  rw [decodePair_concat hhex (hne '%' (by simp)) (hne '+' (by simp)) (hne '=' (by simp))] at h
  split_ifs at h with hmem
  · exact h
  · dsimp only at h ⊢
    rw [laws.lower_concat _ hc, String.ofList_toList] at h
    generalize U.lower (decodePair segment).1 = key at h ⊢
    rw [Bool.or_eq_true] at h ⊢
    refine h.imp (fun hstarts => ?_) fun hkey => ?_
    · simp only [String.startsWith_string_iff, String.toList_ofList] at hstarts ⊢
      rcases List.prefix_concat_iff.mp hstarts with heq | hprefix
      · have hlast := congrArg List.getLast? heq
        simp at hlast
        exact absurd hlast.symm (hne '_' (by simp))
      · exact hprefix
    · rw [decide_eq_true_eq] at hkey
      have hletter : c.toNat < 0x21 ∨ 0x7E < c.toNat := by
        by_contra hgraphic
        rw [laws.isSpace_graphic c (by omega) (by omega)] at hc
        exact Bool.false_ne_true hc
      have hlast : some c ∈ trackingParameters.map fun key => key.toList.getLast? := by
        have hmem := List.mem_map_of_mem (f := fun key => key.toList.getLast?) hkey
        simpa using hmem
      have hletters : trackingParameters.map (fun key => key.toList.getLast?) =
          [some 'd', some 'd', some 'd', some 'd', some 'f', some 'r'] := rfl
      rw [hletters] at hlast
      simp only [List.mem_cons, Option.some.injEq, List.not_mem_nil, or_false] at hlast
      rcases hlast with rfl | rfl | rfl | rfl | rfl | rfl <;> exact absurd hletter (by decide)

theorem isTracking_of_append {segment w : List Char} (hw : ∀ c ∈ w, U.isSpace c = true)
    (h : isTracking U (segment ++ w) = true) : isTracking U segment = true := by
  induction w using List.reverseRecOn with
  | nil => rwa [List.append_nil] at h
  | append_singleton w c ih =>
      rw [← List.append_assoc] at h
      refine ih (fun d hd => hw d (List.mem_append_left _ hd)) ?_
      exact isTracking_of_concat laws (hw c (by simp)) h

/-- White space at the end changes what a segment stands for. -/
theorem decodePair_append_ne {w : List Char} (hw : ∀ c ∈ w, U.isSpace c = true) (hne : w ≠ [])
    (segment : List Char) : decodePair (segment ++ w) ≠ decodePair segment := by
  have hlength : ∀ w : List Char, (∀ c ∈ w, U.isSpace c = true) →
      (decodePair (segment ++ w)).1.length + (decodePair (segment ++ w)).2.length =
        (decodePair segment).1.length + (decodePair segment).2.length + w.length := by
    intro w hw
    induction w using List.reverseRecOn with
    | nil => rw [List.append_nil, List.length_nil, Nat.add_zero]
    | append_singleton w c ih =>
        obtain ⟨hhex, hother⟩ := laws.unescaped_of_isSpace (hw c (by simp))
        have hih := ih fun d hd => hw d (List.mem_append_left _ hd)
        rw [← List.append_assoc, decodePair_concat hhex (hother '%' (by simp))
          (hother '+' (by simp)) (hother '=' (by simp))]
        split_ifs <;> simp only [String.length_ofList, List.length_append, List.length_singleton,
          String.length_toList] <;> omega
  intro heq
  have hsum := hlength w hw
  rw [heq] at hsum
  exact hne (List.length_eq_zero_iff.mp (by omega))

/-- What stands at the end of a query. -/
theorem exists_last_segment (query : List Char) :
    ∃ first last w, query.rdropWhile U.isSpace ++ w = query ∧ (∀ c ∈ w, U.isSpace c = true) ∧
      (query.rdropWhile U.isSpace).splitOn '&' = first ++ [last] ∧
      query.splitOn '&' = first ++ [last ++ w] := by
  have hspaces : ∀ c ∈ query.rtakeWhile U.isSpace, U.isSpace c = true :=
    fun c hc => List.mem_rtakeWhile_imp hc
  have happend : query.rdropWhile U.isSpace ++ query.rtakeWhile U.isSpace = query :=
    List.rdropWhile_append_rtakeWhile
  have hamp : '&' ∉ query.rtakeWhile U.isSpace := fun h =>
    (laws.unescaped_of_isSpace (hspaces _ h)).2 '&' (by simp) rfl
  obtain ⟨first, last, hfirst, hlast⟩ := splitOn_append hamp (query.rdropWhile U.isSpace)
  rw [happend] at hlast
  exact ⟨first, last, _, happend, hspaces, hfirst, hlast⟩

/-- **The kept segments of a query** do not change with white space at its end, unless the last of
them ends in it. -/
theorem keptSegments_rdropWhile {query : List Char}
    (h : ∀ last ∈ (keptSegments U query).getLast?, Trimmed U last) :
    keptSegments U (query.rdropWhile U.isSpace) = keptSegments U query := by
  obtain ⟨first, last, w, -, hw, hfirst, hlast⟩ := exists_last_segment laws query
  by_cases hne : w = []
  · subst hne
    rw [keptSegments, keptSegments, segments, segments, hfirst, hlast, List.append_nil]
  · have hkept : ∀ l : List (List Char), keptSegments U query = l ++ [last ++ w] → False := by
      intro l hl
      rw [hl, List.getLast?_append_of_ne_nil _ (by simp)] at h
      have htrimmed := h (last ++ w) rfl
      rw [trimmed_append_iff hne, Trimmed, List.rdropWhile_eq_nil_iff.mpr hw] at htrimmed
      exact hne htrimmed.symm
    have hnonempty : last ++ w ≠ [] := List.append_ne_nil_of_right_ne_nil last hne
    have htracking : isTracking U (last ++ w) = true := by
      by_contra htracking
      rw [Bool.not_eq_true] at htracking
      refine hkept ((first.filter (· ≠ [])).filter (!isTracking U ·)) ?_
      rw [keptSegments, segments, hlast, List.filter_append, List.filter_append]
      simp [hnonempty, htracking]
    rw [keptSegments, keptSegments, segments, segments, hfirst, hlast, List.filter_append,
      List.filter_append, List.filter_append, List.filter_append]
    simp [hnonempty, htracking, isTracking_of_append laws hw htracking]

/-! ## The host -/

/-- The host as it is written ends in white space exactly when its name does, unless a bracket
closes it. -/
theorem trimmed_hostText_iff {netloc : List Char} (hne : hostName (hostinfo netloc) ≠ []) :
    Trimmed U (hostText (hostinfo netloc)) ↔
      ('[' ∈ hostinfo netloc ∧ ']' ∈ hostinfo netloc) ∨ Trimmed U (lowerHost U netloc) := by
  have hclose : Trimmed U [']'] :=
    (@trimmed_concat_iff _ [] _).mpr (laws.isSpace_graphic _ (by decide) (by decide))
  rw [lowerHost, trimmed_lower_iff laws, hostText]
  by_cases hopen : '[' ∈ hostinfo netloc
  · rw [if_pos hopen]
    by_cases hmem : ']' ∈ hostinfo netloc
    · rw [if_pos hmem, trimmed_append_iff (List.cons_ne_nil _ _)]
      simp [hopen, hmem, hclose]
    · rw [if_neg hmem, List.append_nil, ← List.singleton_append, trimmed_append_iff hne]
      simp [hmem]
  · rw [if_neg hopen]
    simp [hopen]

/-- **A network location ends in white space** only when its host does and there is no port. -/
theorem trimmed_netloc {netloc : List Char} {p : Option ℕ}
    (hallowed : bracketsAllowed ipLiteral netloc = true) (hport : port netloc = some p)
    (hne : hostName (hostinfo netloc) ≠ [])
    (h : p = none → Trimmed U (hostText (hostinfo netloc))) : Trimmed U netloc := by
  obtain ⟨part, hpart, hinfo, hnil⟩ := exists_portPart hallowed
  have hinfo_ne : hostinfo netloc ≠ [] := by
    intro hempty
    refine hne ?_
    rw [hempty]
    rfl
  have hnetloc : netloc.rdropWhile (· ≠ '@') ++ hostinfo netloc = netloc :=
    List.rdropWhile_append_rtakeWhile
  rw [← hnetloc, trimmed_append_iff hinfo_ne]
  have hgraphic : ∀ c, 0x21 ≤ c.toNat → c.toNat ≤ 0x7E → U.isSpace c = false := laws.isSpace_graphic
  rcases hpart with rfl | rfl
  · rw [hinfo, List.append_nil]
    refine h ?_
    have htext := hnil rfl
    rw [port, htext] at hport
    simpa using hport.symm
  · rw [hinfo, trimmed_append_iff (List.cons_ne_nil _ _), trimmed_iff]
    intro c hc
    have hmem := List.mem_of_getLast? hc
    rcases List.mem_cons.mp hmem with rfl | hmem
    · exact hgraphic _ (by decide) (by decide)
    · have hdigit := Char.isDigit_iff_toNat.mp (isDigit_of_port hport c hmem)
      exact hgraphic c (le_trans (by decide) hdigit.1) (le_trans hdigit.2 (by decide))

end Canonical

/-! ## Normal forms -/

/-- Two URLs that differ in nothing but tracking parameters, the fragment, a default port that is
written or not, and the case of the scheme (which is read in lower case) and the host. -/
structure SameButFor (U : Unicode) (parts : Split) (p : Option ℕ) (parts' : Split) (p' : Option ℕ) :
    Prop where
  scheme : parts.scheme = parts'.scheme
  userinfo : userinfo parts.netloc = userinfo parts'.netloc
  host : lowerHost U parts.netloc = lowerHost U parts'.netloc
  openBracket : '[' ∈ hostinfo parts.netloc ↔ '[' ∈ hostinfo parts'.netloc
  closeBracket : ']' ∈ hostinfo parts.netloc ↔ ']' ∈ hostinfo parts'.netloc
  port : effectivePort parts.scheme p = effectivePort parts'.scheme p'
  path : parts.path = parts'.path
  query : keptSegments U parts.query = keptSegments U parts'.query

/-- What tells URLs apart: scheme, host, effective port, path (empty counted as `/`) and the list
of decoded parameters that are not for tracking. -/
structure SameIdentity (U : Unicode) (parts : Split) (p : Option ℕ) (parts' : Split)
    (p' : Option ℕ) : Prop where
  scheme : parts.scheme = parts'.scheme
  host : lowerHost U parts.netloc = lowerHost U parts'.netloc
  port : effectivePort parts.scheme p = effectivePort parts'.scheme p'
  path : (if parts.path = [] then ['/'] else parts.path) =
    if parts'.path = [] then ['/'] else parts'.path
  query : (keptSegments U parts.query).map decodePair = (keptSegments U parts'.query).map decodePair

section NormalForm

variable (U : Unicode) (ipLiteral : List Char → Bool) (urljoin : String → String → Option String)

/-- The result for a URL is a normal form: it is a fixpoint, the same for URLs that differ in
nothing but what plays no role, and different for URLs of another identity. -/
structure NormalForm (url : String) (parts : Split) (p : Option ℕ) : Prop where
  idempotent : ∀ r, canonicalizeUrl U (standardUrls U ipLiteral urljoin) url = some r →
    canonicalizeUrl U (standardUrls U ipLiteral urljoin) r = some r
  invariant : ∀ url' parts' p', Parsed U ipLiteral url' parts' p' → SameButFor U parts p parts' p' →
    canonicalizeUrl U (standardUrls U ipLiteral urljoin) url' =
      canonicalizeUrl U (standardUrls U ipLiteral urljoin) url
  separates : ∀ url' parts' p', Parsed U ipLiteral (U.strip url') parts' p' →
    canonicalizeUrl U (standardUrls U ipLiteral urljoin) url' =
      canonicalizeUrl U (standardUrls U ipLiteral urljoin) url →
    SameIdentity U parts p parts' p'

/-- What is in front of the fragment, the tracking parameters and a default port does not end in
white space, and a host without a colon has no bracket. -/
structure Plain (parts : Split) (p : Option ℕ) : Prop where
  brackets : ':' ∈ hostName (hostinfo parts.netloc) ∨
    '[' ∉ hostName (hostinfo parts.netloc) ∧ ']' ∉ hostName (hostinfo parts.netloc)
  query : ∀ last ∈ (keptSegments U parts.query).getLast?, Trimmed U last
  path : keptSegments U parts.query = [] → Trimmed U parts.path
  host : keptSegments U parts.query = [] → parts.path = [] → shownPort parts.scheme p = none →
    Trimmed U (hostText (hostinfo parts.netloc))

end NormalForm

section Proofs

variable {U : Unicode} {ipLiteral : List Char → Bool} {urljoin : String → String → Option String}
  (laws : UrlLaws U ipLiteral)

/-! ### The text that is written -/

theorem not_mem_pathOf (tail : List Char) : '#' ∉ pathOf tail ∧ '?' ∉ pathOf tail :=
  ⟨fun h => not_mem_takeWhile '#' tail ((List.takeWhile_prefix _).subset h),
    not_mem_takeWhile '?' _⟩

theorem pathOf_subset (tail : List Char) : pathOf tail ⊆ tail := fun _ h =>
  (List.takeWhile_prefix _).subset ((List.takeWhile_prefix _).subset h)

theorem queryOf_subset (tail : List Char) : queryOf tail ⊆ tail := fun _ h =>
  (List.takeWhile_prefix _).subset (after_subset '?' _ h)

theorem not_mem_queryOf (tail : List Char) : '#' ∉ queryOf tail := fun h =>
  not_mem_takeWhile '#' tail (after_subset '?' _ h)

/-- All characters behind the network location are read. -/
theorem unsafe_tail {url : String} {name netloc tail : List Char}
    (h : Absolute (clean url.toList) name netloc tail) {c : Char} (hc : c ∈ tail) :
    isUnsafe c = false := by
  refine @not_isUnsafe_of_mem_clean url.toList _ ?_
  rw [h.eq]
  simp [hc]

/-- What is written of a query. -/
theorem not_mem_urlencode {c : Char} (hsafe : isSafe c = false) (hother : c ∉ ['%', '+', '=', '&'])
    (params : List (String × String)) : c ∉ (urlencode params).toList := fun h => by
  rcases mem_urlencode h with h | h
  · rw [hsafe] at h
    exact Bool.false_ne_true h
  · exact hother h

/-- The path and the query of a URL that is written. -/
theorem tail_canonicalTail {path : List Char} (hpath : '#' ∉ path ∧ '?' ∉ path)
    (params : List (String × String)) :
    pathOf (canonicalTail path params) = (if path = [] then ['/'] else path) ∧
      queryOf (canonicalTail path params) = (urlencode params).toList := by
  have hslash : '#' ∉ (if path = [] then ['/'] else path) ∧
      '?' ∉ (if path = [] then ['/'] else path) := by
    split_ifs
    · decide
    · exact hpath
  unfold canonicalTail
  generalize (if path = [] then ['/'] else path) = shown at hslash ⊢
  have hhash : '#' ∉ (urlencode params).toList := not_mem_urlencode (by decide) (by decide) params
  by_cases hparams : params = []
  · rw [if_pos hparams, List.append_nil, pathOf, queryOf, takeWhile_of_not_mem hslash.1,
      takeWhile_of_not_mem hslash.2, after_of_not_mem hslash.2, hparams]
    exact ⟨rfl, rfl⟩
  · have hall : '#' ∉ shown ++ '?' :: (urlencode params).toList := by simp [hslash.1, hhash]
    rw [if_neg hparams, pathOf, queryOf, takeWhile_of_not_mem hall, after_append_cons hslash.2,
      takeWhile_append_cons (ne_of_not_mem hslash.2) (by simp)]
    exact ⟨rfl, rfl⟩

theorem head_canonicalTail {path : List Char} (hpath : path = [] ∨ ∃ rest, path = '/' :: rest)
    (params : List (String × String)) :
    ∃ rest, canonicalTail path params = '/' :: rest := by
  unfold canonicalTail
  rcases hpath with rfl | ⟨rest, rfl⟩
  · exact ⟨_, rfl⟩
  · exact ⟨_, rfl⟩

theorem isScheme_toList {scheme : String} (h : scheme = "http" ∨ scheme = "https") :
    IsScheme scheme.toList := by
  have hhttp : IsScheme ['h', 't', 't', 'p'] := by decide
  have hhttps : IsScheme ['h', 't', 't', 'p', 's'] := by decide
  rcases h with rfl | rfl
  · exact hhttp
  · exact hhttps

include laws

/-- The characters of a network location that is written. -/
theorem mem_canonicalNetloc {netloc : List Char} {p : Option ℕ} {c : Char} (hlt : c.toNat < 0x80)
    (halpha : c.isAlpha = false) (hdigit : c.isDigit = false) (hother : c ∉ ['[', ']', ':'])
    (h : c ∈ canonicalNetloc (lowerHost U netloc) p) : c ∈ netloc := by
  simp only [List.mem_cons, List.not_mem_nil, or_false, not_or] at hother
  have hhost : c ∈ lowerHost U netloc := by
    rcases List.mem_append.mp h with h | h
    · unfold bracketed at h
      split_ifs at h
      · simpa [hother] using h
      · exact h
    · exact absurd h (not_mem_portSuffix hother.2.2 hdigit p)
  rw [lowerHost, laws.mem_lower _ c hlt halpha, String.toList_ofList] at hhost
  exact hostinfo_subset netloc (hostName_subset _ hhost)

/-- **A URL that is written is absolute**, and all of it is read. -/
theorem absolute_canonicalText {name netloc tail : List Char} {url : String}
    (h : Absolute (clean url.toList) name netloc tail) {parts : Split}
    (hscheme : parts.scheme = "http" ∨ parts.scheme = "https") (hnetloc : parts.netloc = netloc)
    (hpath : parts.path = pathOf tail) (p : Option ℕ) :
    Absolute (clean (canonicalText U parts p)) parts.scheme.toList
      (canonicalNetloc (lowerHost U parts.netloc) (shownPort parts.scheme p))
      (canonicalTail parts.path ((keptSegments U parts.query).map decodePair)) := by
  have hread : ∀ c ∈ clean url.toList, isUnsafe c = false := fun c hc =>
    not_isUnsafe_of_mem_clean hc
  rw [h.eq] at hread
  have hnetloc_read : ∀ c ∈ netloc, isUnsafe c = false := fun c hc => hread c (by simp [hc])
  have hpath_read : ∀ c ∈ pathOf tail, isUnsafe c = false := fun c hc =>
    hread c (by simp [pathOf_subset tail hc])
  obtain ⟨rest, hrest⟩ := head_canonicalTail (pathOf_head h.tail)
    ((keptSegments U parts.query).map decodePair)
  have habsolute : Absolute (canonicalText U parts p) parts.scheme.toList
      (canonicalNetloc (lowerHost U parts.netloc) (shownPort parts.scheme p))
      (canonicalTail parts.path ((keptSegments U parts.query).map decodePair)) := by
    refine ⟨rfl, isScheme_toList hscheme, fun c hc => ?_, ?_⟩
    · by_contra hends
      rw [Bool.not_eq_false, endsNetloc, decide_eq_true_eq] at hends
      simp only [List.mem_cons, List.not_mem_nil, or_false] at hends
      have hmem : c ∈ netloc := by
        rw [← hnetloc]
        rcases hends with rfl | rfl | rfl <;>
          exact mem_canonicalNetloc laws (by decide) (by decide) (by decide) (by decide) hc
      have hnot := h.netloc c hmem
      rcases hends with rfl | rfl | rfl <;> exact absurd hnot (by decide)
    · rw [hpath, hrest]
      rfl
  have hremoved : ∀ c ∈ canonicalText U parts p, isUnsafe c = false := by
    intro c hc
    by_contra hmem
    rw [Bool.not_eq_false, isUnsafe, decide_eq_true_eq] at hmem
    simp only [List.mem_cons, List.not_mem_nil, or_false] at hmem
    have hscheme_mem : c ∉ parts.scheme.toList := fun hin =>
      absurd (List.all_eq_true.mp (isScheme_toList hscheme).2 c hin) (by
        rcases hmem with rfl | rfl | rfl <;> decide)
    have hnetloc_mem :
        c ∉ canonicalNetloc (lowerHost U parts.netloc) (shownPort parts.scheme p) := by
      intro hin
      have hin : c ∈ netloc := by
        rw [← hnetloc]
        rcases hmem with rfl | rfl | rfl <;>
          exact mem_canonicalNetloc laws (by decide) (by decide) (by decide) (by decide) hin
      have hnot := hnetloc_read c hin
      rcases hmem with rfl | rfl | rfl <;> exact absurd hnot (by decide)
    have htail_mem :
        c ∉ canonicalTail parts.path ((keptSegments U parts.query).map decodePair) := by
      have hpath_mem : c ∉ pathOf tail := fun hin => by
        have hnot := hpath_read c hin
        rcases hmem with rfl | rfl | rfl <;> exact absurd hnot (by decide)
      have hquery_mem : c ∉ (urlencode ((keptSegments U parts.query).map decodePair)).toList := by
        rcases hmem with rfl | rfl | rfl <;> exact not_mem_urlencode (by decide) (by decide) _
      have hslash : c ≠ '/' ∧ c ≠ '?' := by rcases hmem with rfl | rfl | rfl <;> decide
      rw [canonicalTail, hpath, List.mem_append, not_or]
      constructor <;> split_ifs <;> simp [hslash, hpath_mem, hquery_mem]
    have hcolon : c ≠ ':' ∧ c ≠ '/' := by rcases hmem with rfl | rfl | rfl <;> decide
    rw [canonicalText] at hc
    simp [hscheme_mem, hnetloc_mem, htail_mem, hcolon] at hc
  obtain ⟨c, rest', hc, hchars⟩ : ∃ c rest', isC0OrSpace c = false ∧
      canonicalText U parts p = c :: rest' := by
    rcases hscheme with hs | hs
    · exact ⟨'h', _, by decide, by rw [canonicalText, hs]; rfl⟩
    · exact ⟨'h', _, by decide, by rw [canonicalText, hs]; rfl⟩
  rw [clean_eq_self hchars hc hremoved]
  exact habsolute

/-! ### Reading it again -/

/-- The parts of a URL that is written. -/
theorem canonicalText_inj {url url' : String} {name netloc tail name' netloc' tail' : List Char}
    (h : Absolute (clean url.toList) name netloc tail)
    (h' : Absolute (clean url'.toList) name' netloc' tail') {parts parts' : Split}
    (hscheme : parts.scheme = "http" ∨ parts.scheme = "https")
    (hscheme' : parts'.scheme = "http" ∨ parts'.scheme = "https")
    (hnetloc : parts.netloc = netloc) (hnetloc' : parts'.netloc = netloc')
    (hpath : parts.path = pathOf tail) (hpath' : parts'.path = pathOf tail') {p p' : Option ℕ}
    (heq : canonicalText U parts p = canonicalText U parts' p') :
    SameIdentity U parts p parts' p' := by
  have habsolute := (absolute_canonicalText laws h hscheme hnetloc hpath p).split_eq U
  have habsolute' := (absolute_canonicalText laws h' hscheme' hnetloc' hpath' p').split_eq U
  rw [heq, habsolute', Split.mk.injEq] at habsolute
  obtain ⟨hs, hn, hp, hq, -⟩ := habsolute
  rw [String.ofList_toList, String.ofList_toList, lower_scheme laws hscheme,
    lower_scheme laws hscheme'] at hs
  have htail :=
    tail_canonicalTail (not_mem_pathOf tail) ((keptSegments U parts.query).map decodePair)
  have htail' :=
    tail_canonicalTail (not_mem_pathOf tail') ((keptSegments U parts'.query).map decodePair)
  rw [← hpath] at htail
  rw [← hpath'] at htail'
  rw [htail.1, htail'.1] at hp
  rw [htail.2, htail'.2] at hq
  obtain ⟨hhost, hport⟩ := canonicalNetloc_inj (isHost_lower laws _) (isHost_lower laws _) hn
  refine ⟨hs.symm, hhost.symm, ?_, hp.symm, ?_⟩
  · rw [hs] at hport
    rw [hs]
    exact shownPort_eq_iff.mp hport.symm
  · exact urlencode_injective (String.toList_inj.mp hq.symm)

/-- **URLs with the same result have the same identity.** -/
theorem separates_of_parsed {url url' : String} {parts parts' : Split} {p p' : Option ℕ}
    (h : Parsed U ipLiteral (U.strip url) parts p) (h' : Parsed U ipLiteral (U.strip url') parts' p')
    (heq : canonicalizeUrl U (standardUrls U ipLiteral urljoin) url' =
      canonicalizeUrl U (standardUrls U ipLiteral urljoin) url) :
    SameIdentity U parts p parts' p' := by
  obtain ⟨name, tail, habsolute, hparts⟩ := h.absolute laws
  obtain ⟨name', tail', habsolute', hparts'⟩ := h'.absolute laws
  rw [canonicalizeUrl_of_parsed laws h, canonicalizeUrl_of_parsed laws h'] at heq
  exact canonicalText_inj laws habsolute habsolute' h.scheme h'.scheme rfl rfl
    (by rw [hparts]) (by rw [hparts']) (String.ofList_injective (Option.some.inj heq)).symm

/-- **The same result** for URLs that differ in what plays no role. -/
theorem invariant_of_plain {url url' : String} {parts parts' : Split} {p p' : Option ℕ}
    (h : Parsed U ipLiteral (U.strip url) parts p) (hplain : Plain U parts p)
    (h' : Parsed U ipLiteral url' parts' p') (hsame : SameButFor U parts p parts' p') :
    canonicalizeUrl U (standardUrls U ipLiteral urljoin) url' =
      canonicalizeUrl U (standardUrls U ipLiteral urljoin) url := by
  obtain ⟨name, tail, habsolute, hparts⟩ := h'.absolute laws
  have hstrip := absolute_strip laws habsolute
  have hscheme : U.lower (String.ofList name) = parts'.scheme := by rw [hparts]
  have hpath : parts'.path = pathOf tail := by rw [hparts]
  have hquery : parts'.query = queryOf tail := by rw [hparts]
  have hends : ∀ c, endsNetloc c = true → U.isSpace c = false := fun c hc =>
    laws.isSpace_endsNetloc hc
  have hshown : shownPort parts'.scheme p = shownPort parts'.scheme p' := by
    have hport := hsame.port
    rw [hsame.scheme] at hport
    exact shownPort_eq_iff.mpr hport
  -- nothing of the network location is stripped
  have hnetloc : (if tail = [] then parts'.netloc.rdropWhile U.isSpace else parts'.netloc) =
      parts'.netloc := by
    split_ifs with hnil
    · have hallowed := h'.allowed
      rw [netlocAllowed, Bool.and_eq_true] at hallowed
      refine trimmed_netloc laws hallowed.1 h'.port h'.host fun hnone => ?_
      have htrimmed := hplain.host (by rw [hsame.query, hquery, hnil]; rfl)
        (by rw [hsame.path, hpath, hnil]; rfl) (by rw [hsame.scheme, hshown, hnone]; rfl)
      rw [trimmed_hostText_iff laws h'.host, ← hsame.host, ← hsame.openBracket,
        ← hsame.closeBracket]
      exact (trimmed_hostText_iff laws h.host).mp htrimmed
    · rfl
  -- nor of the query and the path, but for tracking parameters and the fragment
  have hkept :
      keptSegments U (queryOf (tail.rdropWhile U.isSpace)) = keptSegments U parts.query := by
    rw [queryOf_rdropWhile hends, hsame.query, hquery]
    split_ifs
    · rfl
    · refine keptSegments_rdropWhile laws fun last hlast => hplain.query last ?_
      rwa [hsame.query, hquery]
  have hsamePath : pathOf (tail.rdropWhile U.isSpace) = parts.path := by
    rw [pathOf_rdropWhile hends, hsame.path, hpath]
    split_ifs with hmem
    · rfl
    · rw [not_or] at hmem
      have hempty : queryOf tail = [] := by
        rw [queryOf, takeWhile_of_not_mem hmem.1, after_of_not_mem hmem.2]
      have htrimmed := hplain.path (by rw [hsame.query, hquery, hempty]; rfl)
      rwa [hsame.path, hpath] at htrimmed
  rw [hnetloc] at hstrip
  have hschemes := h'.scheme
  rw [← hscheme] at hschemes
  rw [canonicalizeUrl_of_parsed laws h, canonicalizeUrl_eq laws hstrip hschemes,
    if_pos h'.allowed, h'.port, Option.map_some, canonicalText, canonicalText, hscheme, hkept,
    hsamePath, hsame.scheme, hsame.host, hshown]

/-- What is returned for a URL that was written. -/
theorem canonicalizeUrl_canonicalText {url : String} {parts : Split} {p : Option ℕ}
    (h : Parsed U ipLiteral (U.strip url) parts p) :
    ∃ tail, tail = canonicalTail parts.path ((keptSegments U parts.query).map decodePair) ∧
      canonicalizeUrl U (standardUrls U ipLiteral urljoin)
        (String.ofList (canonicalText U parts p)) =
      if netlocAllowed U ipLiteral
          (canonicalNetloc (lowerHost U parts.netloc) (shownPort parts.scheme p)) then
        (port (canonicalNetloc (lowerHost U parts.netloc) (shownPort parts.scheme p))).map fun q =>
          String.ofList (canonicalText U
            ⟨parts.scheme, canonicalNetloc (lowerHost U parts.netloc) (shownPort parts.scheme p),
              pathOf (tail.rdropWhile U.isSpace), queryOf (tail.rdropWhile U.isSpace),
              after '#' (tail.rdropWhile U.isSpace)⟩ q)
      else none := by
  obtain ⟨name, tail, habsolute, hparts⟩ := h.absolute laws
  have hpath : parts.path = pathOf tail := by rw [hparts]
  have htext := absolute_canonicalText laws habsolute h.scheme rfl hpath p
  rw [← String.toList_ofList (l := canonicalText U parts p)] at htext
  have hstrip := absolute_strip laws htext
  obtain ⟨rest, hrest⟩ := head_canonicalTail (pathOf_head habsolute.tail)
    ((keptSegments U parts.query).map decodePair)
  rw [← hpath] at hrest
  rw [if_neg (by rw [hrest]; exact List.cons_ne_nil _ _)] at hstrip
  refine ⟨_, rfl, ?_⟩
  have hscheme : U.lower (String.ofList parts.scheme.toList) = parts.scheme := by
    rw [String.ofList_toList, lower_scheme laws h.scheme]
  rw [canonicalizeUrl_eq laws hstrip (by rw [hscheme]; exact h.scheme), hscheme]

/-! ### Fixpoints -/

omit laws in
theorem shownPort_shownPort (scheme : String) (p : Option ℕ) :
    shownPort scheme (shownPort scheme p) = shownPort scheme p := by
  cases p with
  | none => rfl
  | some n =>
      by_cases hdefault : n = defaultPort scheme <;> simp [shownPort, hdefault]

omit laws in
theorem keptSegments_urlencode (query : List Char) :
    (keptSegments U (urlencode ((keptSegments U query).map decodePair)).toList).map decodePair =
      (keptSegments U query).map decodePair := by
  have hkept : keptSegments U (urlencode ((keptSegments U query).map decodePair)).toList =
      ((keptSegments U query).map decodePair).map encodePair := by
    rw [keptSegments, segments_urlencode, List.filter_eq_self]
    intro segment hsegment
    obtain ⟨pair, hpair, rfl⟩ := List.mem_map.mp hsegment
    obtain ⟨kept, hkept, rfl⟩ := List.mem_map.mp hpair
    have hnot := (List.mem_filter.mp hkept).2
    rwa [isTracking, decodePair_encodePair]
  rw [hkept, List.map_map]
  conv_rhs => rw [← List.map_id ((keptSegments U query).map decodePair)]
  exact List.map_congr_left fun pair _ => decodePair_encodePair pair

/-- What is written of a plain URL does not end in white space. -/
theorem trimmed_canonicalTail {parts : Split} {p : Option ℕ} (hplain : Plain U parts p) :
    Trimmed U (canonicalTail parts.path ((keptSegments U parts.query).map decodePair)) := by
  unfold canonicalTail
  by_cases hkept : keptSegments U parts.query = []
  · rw [hkept, List.map_nil, if_pos rfl, List.append_nil]
    split_ifs
    · exact (@trimmed_concat_iff _ [] _).mpr (laws.isSpace_graphic _ (by decide) (by decide))
    · exact hplain.path hkept
  · have hparams : (keptSegments U parts.query).map decodePair ≠ [] := by simpa using hkept
    have hne : (urlencode ((keptSegments U parts.query).map decodePair)).toList ≠ [] := by
      intro hnil
      exact hparams (urlencode_eq_empty_iff.mp (String.toList_eq_nil_iff.mp hnil))
    rw [if_neg hparams]
    generalize (if parts.path = [] then ['/'] else parts.path) = shown
    rw [← List.singleton_append, ← List.append_assoc, trimmed_append_iff hne, trimmed_iff]
    intro c hc
    rcases mem_urlencode (List.mem_of_getLast? hc) with hsafe | hother
    · exact laws.isSpace_graphic c (isSafe_graphic hsafe).1 (isSafe_graphic hsafe).2
    · simp only [List.mem_cons, List.not_mem_nil, or_false] at hother
      rcases hother with rfl | rfl | rfl | rfl <;>
        exact laws.isSpace_graphic _ (by decide) (by decide)

omit laws in
theorem mem_lowerHost_iff (laws : UrlLaws U ipLiteral) (netloc : List Char) {c : Char}
    (hlt : c.toNat < 0x80) (halpha : c.isAlpha = false) :
    c ∈ lowerHost U netloc ↔ c ∈ hostName (hostinfo netloc) := by
  rw [lowerHost, laws.mem_lower _ c hlt halpha, String.toList_ofList]

/-- **The result for a plain URL is a fixpoint.** -/
theorem idempotent_of_plain {url r : String} {parts : Split} {p : Option ℕ}
    (h : Parsed U ipLiteral (U.strip url) parts p) (hplain : Plain U parts p)
    (hr : canonicalizeUrl U (standardUrls U ipLiteral urljoin) url = some r) :
    canonicalizeUrl U (standardUrls U ipLiteral urljoin) r = some r := by
  rw [canonicalizeUrl_of_parsed laws h] at hr
  obtain rfl := Option.some.inj hr
  obtain ⟨tail, htail, hresult⟩ :=
    @canonicalizeUrl_canonicalText _ _ urljoin laws _ _ _ h
  obtain ⟨name, rest, habsolute, hparts⟩ := h.absolute laws
  have hpath : parts.path = pathOf rest := by rw [hparts]
  have hhost : IsHost (lowerHost U parts.netloc) := isHost_lower laws parts.netloc
  have hallowed := h.allowed
  rw [netlocAllowed, Bool.and_eq_true] at hallowed
  have hplainHost : ':' ∈ lowerHost U parts.netloc ∨
      '[' ∉ lowerHost U parts.netloc ∧ ']' ∉ lowerHost U parts.netloc := by
    rw [mem_lowerHost_iff laws _ (by decide) (by decide),
      mem_lowerHost_iff laws _ (by decide) (by decide),
      mem_lowerHost_iff laws _ (by decide) (by decide)]
    exact hplain.brackets
  have hip : ':' ∈ lowerHost U parts.netloc → ipLiteral (lowerHost U parts.netloc) = true := by
    intro hcolon
    rw [mem_lowerHost_iff laws _ (by decide) (by decide)] at hcolon
    exact laws.ipLiteral_lower _ (ipLiteral_hostName hallowed.1 hcolon)
  have hwritten : netlocAllowed U ipLiteral
      (canonicalNetloc (lowerHost U parts.netloc) (shownPort parts.scheme p)) = true := by
    rw [netlocAllowed, Bool.and_eq_true]
    exact ⟨bracketsAllowed_canonicalNetloc hhost hplainHost hip,
      hides_canonicalNetloc laws hallowed.2 _⟩
  have hport : port (canonicalNetloc (lowerHost U parts.netloc) (shownPort parts.scheme p)) =
      some (shownPort parts.scheme p) := by
    refine port_canonicalNetloc hhost hplainHost fun n hn => ?_
    have hread := h.port
    cases p with
    | none => exact absurd hn (by simp [shownPort])
    | some m =>
        rw [shownPort] at hn
        split_ifs at hn
        obtain rfl := Option.some.inj hn
        exact port_le hread
  have hsameHost : lowerHost U (canonicalNetloc (lowerHost U parts.netloc)
      (shownPort parts.scheme p)) = lowerHost U parts.netloc := by
    rw [lowerHost, hostinfo_canonicalNetloc hhost, (hostName_canonicalNetloc hhost hplainHost).1,
      lowerHost, String.ofList_toList, laws.lower_lower]
  have htrimmed := trimmed_canonicalTail laws hplain
  rw [← htail] at htrimmed
  rw [hresult, if_pos hwritten, hport, Option.map_some, htrimmed]
  have hread := tail_canonicalTail (hpath ▸ not_mem_pathOf rest)
    ((keptSegments U parts.query).map decodePair)
  rw [← htail] at hread
  refine congrArg (fun text => some (String.ofList text)) ?_
  have hne : (if parts.path = [] then ['/'] else parts.path) ≠ [] := by
    split_ifs with hempty
    · exact List.cons_ne_nil _ _
    · exact hempty
  rw [canonicalText, canonicalText]
  dsimp only
  rw [hsameHost, shownPort_shownPort, hread.1, hread.2, keptSegments_urlencode, canonicalTail,
    canonicalTail, if_neg hne]

/-- A host with one bracket and no colon is written so that it is not read again. -/
theorem plain_brackets {url r : String} {parts : Split} {p : Option ℕ}
    (h : Parsed U ipLiteral (U.strip url) parts p)
    (hr : canonicalizeUrl U (standardUrls U ipLiteral urljoin) url = some r)
    (hagain : canonicalizeUrl U (standardUrls U ipLiteral urljoin) r = some r) :
    ':' ∈ hostName (hostinfo parts.netloc) ∨
      '[' ∉ hostName (hostinfo parts.netloc) ∧ ']' ∉ hostName (hostinfo parts.netloc) := by
  by_contra hnot
  rw [not_or] at hnot
  rw [canonicalizeUrl_of_parsed laws h] at hr
  obtain rfl := Option.some.inj hr
  obtain ⟨tail, -, hresult⟩ :=
    @canonicalizeUrl_canonicalText _ _ urljoin laws _ _ _ h
  have hbracket : '[' ∈ lowerHost U parts.netloc ∨ ']' ∈ lowerHost U parts.netloc := by
    rw [mem_lowerHost_iff laws _ (by decide) (by decide),
      mem_lowerHost_iff laws _ (by decide) (by decide)]
    exact or_iff_not_and_not.mpr hnot.2
  have hcolon : ':' ∉ lowerHost U parts.netloc := by
    rw [mem_lowerHost_iff laws _ (by decide) (by decide)]
    exact hnot.1
  have hrejected : netlocAllowed U ipLiteral
      (canonicalNetloc (lowerHost U parts.netloc) (shownPort parts.scheme p)) = false := by
    have hhost : IsHost (lowerHost U parts.netloc) := isHost_lower laws parts.netloc
    rw [netlocAllowed, not_bracketsAllowed_canonicalNetloc ipLiteral hhost hcolon hbracket,
      Bool.false_and]
  rw [hresult, if_neg (by rw [hrejected]; decide)] at hagain
  exact absurd hagain.symm (Option.some_ne_none _)

/-! ### Exposed white space -/

omit laws in
/-- A URL put together from parts that can be read is read so. -/
theorem parsed_of_absolute {url : String} {name netloc tail : List Char}
    (h : Absolute (clean url.toList) name netloc tail) {p : Option ℕ}
    (hallowed : netlocAllowed U ipLiteral netloc = true) (hport : Urllib.port netloc = some p)
    (hscheme : U.lower (String.ofList name) = "http" ∨ U.lower (String.ofList name) = "https")
    (hhost : hostName (hostinfo netloc) ≠ []) :
    Parsed U ipLiteral url ⟨U.lower (String.ofList name), netloc, pathOf tail, queryOf tail,
      after '#' tail⟩ p := by
  refine ⟨?_, hport, hscheme, hhost⟩
  rw [Urllib.urlsplit, h.split_eq U, if_pos hallowed]

omit laws in
/-- The text of a URL with another network location or another rest. -/
theorem exists_text {url : String} {name netloc tail : List Char}
    (h : Absolute (clean url.toList) name netloc tail) {netloc' tail' : List Char}
    (hnetloc : ∀ c ∈ netloc', c ∈ netloc) (hends : tail'.head?.all endsNetloc = true)
    (htail : ∀ c ∈ tail', isUnsafe c = false) :
    ∃ url' : String, Absolute (clean url'.toList) name netloc' tail' := by
  have hread : ∀ c ∈ clean url.toList, isUnsafe c = false := fun c hc =>
    not_isUnsafe_of_mem_clean hc
  rw [h.eq] at hread
  have habsolute : Absolute (name ++ ':' :: '/' :: '/' :: (netloc' ++ tail')) name netloc' tail' :=
    ⟨rfl, h.scheme, fun c hc => h.netloc c (hnetloc c hc), hends⟩
  refine ⟨String.ofList (name ++ ':' :: '/' :: '/' :: (netloc' ++ tail')), ?_⟩
  rw [String.toList_ofList]
  obtain ⟨c, rest, hname, hlow, -⟩ := exists_head_of_isScheme h.scheme
  have hc : isC0OrSpace c = false := decide_eq_false (by omega)
  have hchars : name ++ ':' :: '/' :: '/' :: (netloc' ++ tail') =
      c :: (rest ++ ':' :: '/' :: '/' :: (netloc' ++ tail')) := by
    rw [hname]
    rfl
  rw [clean_eq_self hchars hc]
  · exact habsolute
  · intro d hd
    simp only [List.mem_append, List.mem_cons] at hd
    rcases hd with hd | rfl | rfl | rfl | hd | hd
    · exact hread d (by simp [hd])
    · rfl
    · rfl
    · rfl
    · exact hread d (by simp [hnetloc d hd])
    · exact htail d hd

/-- The last of the segments that are kept, without white space at its end, stands for another
pair or for none. -/
theorem map_keptSegments_ne {kept : List (List Char)}
    (hkept : ∀ segment ∈ kept, segment ≠ [] ∧ '&' ∉ segment ∧ isTracking U segment = false)
    {last : List Char} (hlast : last ∈ kept.getLast?) (hspace : ¬ Trimmed U last) :
    keptSegments U (['&'].intercalate kept) = kept ∧
      (keptSegments U ((['&'].intercalate kept).rdropWhile U.isSpace)).map decodePair ≠
        kept.map decodePair := by
  have hne : kept ≠ [] := by
    rintro rfl
    simp at hlast
  have hsplit : (['&'].intercalate kept).splitOn '&' = kept :=
    List.splitOn_intercalate '&' (fun segment hsegment => (hkept segment hsegment).2.1) hne
  have hall : ∀ l : List (List Char), (∀ segment ∈ l, segment ∈ kept) →
      (l.filter (· ≠ [])).filter (!isTracking U ·) = l := by
    intro l hl
    rw [List.filter_eq_self.mpr fun segment hsegment => decide_eq_true (hkept _ (hl _ hsegment)).1,
      List.filter_eq_self.mpr fun segment hsegment => by rw [(hkept _ (hl _ hsegment)).2.2]; rfl]
  obtain ⟨first, front, w, happend, hw, hfirst, hsegments⟩ :=
    exists_last_segment laws (['&'].intercalate kept)
  rw [hsplit] at hsegments
  have hlast' : last = front ++ w := by
    rw [hsegments, List.getLast?_append_of_ne_nil _ (by simp)] at hlast
    simpa using hlast.symm
  refine ⟨by rw [keptSegments, segments, hsplit, hall kept fun _ h => h], fun heq => ?_⟩
  have hwne : w ≠ [] := by
    rintro rfl
    -- the query does not end in white space, so neither does its last segment
    rw [List.append_nil] at happend hlast'
    have hends : ∃ before, ['&'].intercalate kept = before ++ last := by
      rw [hsegments, List.append_nil, ← hlast']
      clear * -
      induction first with
      | nil => exact ⟨[], by simp⟩
      | cons segment first ih =>
          obtain ⟨before, hbefore⟩ := ih
          rw [List.cons_append, List.intercalate_cons_of_ne_nil (by simp), hbefore]
          exact ⟨segment ++ ['&'] ++ before, by simp⟩
    obtain ⟨before, hbefore⟩ := hends
    have hmem : last ∈ kept := List.mem_of_getLast? hlast
    rw [hbefore] at happend
    exact hspace ((trimmed_append_iff (hkept last hmem).1 before).mp happend)
  have hfirst_kept : ∀ segment ∈ first, segment ∈ kept := fun segment hsegment => by
    rw [hsegments]
    exact List.mem_append_left _ hsegment
  rw [keptSegments, segments, hfirst, List.filter_append, List.filter_append,
    hall first hfirst_kept, hsegments, List.map_append, List.map_append] at heq
  have hrest := List.append_cancel_left heq
  by_cases hfront : front = []
  · rw [hfront] at hrest
    simp at hrest
  · by_cases htracking : isTracking U front = true
    · simp [hfront, htracking] at hrest
    · rw [Bool.not_eq_true] at htracking
      simp only [List.filter_cons, List.filter_nil, hfront, ne_eq, not_false_eq_true, decide_true,
        if_true, htracking, Bool.not_false, List.map_cons, List.map_nil, List.cons.injEq,
        and_true] at hrest
      exact decodePair_append_ne laws hw hwne front hrest.symm

omit laws in
/-- The segments of a query are parts of it without a separator. -/
theorem mem_keptSegments {query segment : List Char} (h : segment ∈ keptSegments U query) :
    segment ≠ [] ∧ '&' ∉ segment ∧ isTracking U segment = false ∧ ∀ c ∈ segment, c ∈ query := by
  obtain ⟨hmem, htracking⟩ := List.mem_filter.mp h
  obtain ⟨hmem, hne⟩ := List.mem_filter.mp hmem
  rw [List.splitOn_eq_splitOnP] at hmem
  have hchars := Unicode.forall_mem_splitOnP hmem
  refine ⟨of_decide_eq_true hne, fun hamp => ?_, by simpa using htracking,
    fun c hc => (hchars c hc).1⟩
  exact absurd (hchars '&' hamp).2 (by simp)

omit laws in
/-- A path and a query, read again. -/
theorem tail_append {path query : List Char} (hpath : '#' ∉ path ∧ '?' ∉ path)
    (hquery : '#' ∉ query) :
    '#' ∉ path ++ '?' :: query ∧ pathOf (path ++ '?' :: query) = path ∧
      queryOf (path ++ '?' :: query) = query := by
  have hall : '#' ∉ path ++ '?' :: query := by simp [hpath.1, hquery]
  rw [pathOf, queryOf, takeWhile_of_not_mem hall, after_append_cons hpath.2]
  exact ⟨hall, takeWhile_append_cons (ne_of_not_mem hpath.2) (by simp), rfl⟩

section Exposed

variable {url : String} {parts : Split} {p : Option ℕ} (h : Parsed U ipLiteral (U.strip url) parts p)
  (hinvariant : ∀ url' parts' p', Parsed U ipLiteral url' parts' p' →
    SameButFor U parts p parts' p' → canonicalizeUrl U (standardUrls U ipLiteral urljoin) url' =
      canonicalizeUrl U (standardUrls U ipLiteral urljoin) url)

include h hinvariant

/-- A URL that differs from another in what plays no role, when its result is the same: what is
left of it without white space at its end has the same identity. -/
theorem identity_of_variant {name tail : List Char}
    (habsolute : Absolute (clean (U.strip url).toList) name parts.netloc tail)
    (hscheme : parts.scheme = U.lower (String.ofList name)) (hpath : parts.path = pathOf tail)
    {netloc' tail' : List Char} {p' : Option ℕ}
    (hnetloc : ∀ c ∈ netloc', c ∈ parts.netloc) (hends : tail'.head?.all endsNetloc = true)
    (htail : ∀ c ∈ tail', isUnsafe c = false)
    (hallowed : netlocAllowed U ipLiteral netloc' = true) (hport : Urllib.port netloc' = some p')
    (hhost : hostName (hostinfo netloc') ≠ [])
    (hsame : SameButFor U parts p ⟨parts.scheme, netloc', pathOf tail', queryOf tail',
      after '#' tail'⟩ p') :
    ∃ q, SameIdentity U parts p ⟨parts.scheme,
      if tail' = [] then netloc'.rdropWhile U.isSpace else netloc',
      pathOf (tail'.rdropWhile U.isSpace), queryOf (tail'.rdropWhile U.isSpace),
      after '#' (tail'.rdropWhile U.isSpace)⟩ q := by
  have hschemes := h.scheme
  rw [hscheme] at hschemes
  obtain ⟨url', hurl'⟩ := exists_text habsolute hnetloc hends htail
  have hreads := parsed_of_absolute hurl' hallowed hport hschemes hhost
  rw [← hscheme] at hreads
  have hresult := hinvariant url' _ p' hreads hsame
  have hstrip := absolute_strip laws hurl'
  generalize (if tail' = [] then netloc'.rdropWhile U.isSpace else netloc') = stripped at hstrip ⊢
  rw [canonicalizeUrl_of_parsed laws h, canonicalizeUrl_eq laws hstrip hschemes] at hresult
  split_ifs at hresult with hstripped
  obtain ⟨q, -, htext⟩ := Option.map_eq_some_iff.mp hresult
  rw [← hscheme] at htext
  refine ⟨q, ?_⟩
  generalize hparts' : (⟨parts.scheme, stripped, pathOf (tail'.rdropWhile U.isSpace),
    queryOf (tail'.rdropWhile U.isSpace), after '#' (tail'.rdropWhile U.isSpace)⟩ : Split) = parts'
    at htext ⊢
  have hscheme' : parts'.scheme = "http" ∨ parts'.scheme = "https" := by
    rw [← hparts']
    exact h.scheme
  exact canonicalText_inj laws habsolute hstrip h.scheme hscheme' rfl (by rw [← hparts']) hpath
    (by rw [← hparts']) (String.ofList_injective htext).symm

/-- The query that is kept: what is put behind it plays no role only if it does not end in white
space. -/
theorem trimmed_query : ∀ last ∈ (keptSegments U parts.query).getLast?, Trimmed U last := by
  obtain ⟨name, tail, habsolute, hparts⟩ := h.absolute laws
  have hscheme : parts.scheme = U.lower (String.ofList name) := by rw [hparts]
  have hpath : parts.path = pathOf tail := by rw [hparts]
  have hquery : parts.query = queryOf tail := by rw [hparts]
  have hread : ∀ c ∈ tail, isUnsafe c = false := fun c hc => unsafe_tail habsolute hc
  have hnot := hpath ▸ not_mem_pathOf tail
  intro last hlast
  by_contra hspace
  -- the URL with nothing behind the segments that are kept
  generalize hkept : keptSegments U parts.query = kept at hlast
  have hmem : ∀ segment ∈ kept, segment ≠ [] ∧ '&' ∉ segment ∧ isTracking U segment = false ∧
      ∀ c ∈ segment, c ∈ parts.query := fun segment hsegment => mem_keptSegments (hkept ▸ hsegment)
  obtain ⟨hsame, hother⟩ := map_keptSegments_ne laws
    (fun segment hsegment => ⟨(hmem segment hsegment).1, (hmem segment hsegment).2.1,
      (hmem segment hsegment).2.2.1⟩) hlast hspace
  have hchars : ∀ c ∈ ['&'].intercalate kept, c = '&' ∨ c ∈ parts.query := fun c hc =>
    (Unicode.mem_intercalate hc).imp_right fun ⟨segment, hsegment, hc⟩ => (hmem segment hsegment).2.2.2 c hc
  have hhash : '#' ∉ ['&'].intercalate kept := fun hmem => by
    rcases hchars '#' hmem with heq | hin
    · exact absurd heq (by decide)
    · exact not_mem_queryOf tail (hquery ▸ hin)
  obtain ⟨hall, hpathOf, hqueryOf⟩ := tail_append hnot hhash
  generalize ['&'].intercalate kept = query at hsame hother hchars hall hpathOf hqueryOf
  have hends : (parts.path ++ '?' :: query).head?.all endsNetloc = true := by
    rcases pathOf_head habsolute.tail with hnil | ⟨rest, hrest⟩
    · rw [hpath, hnil]
      rfl
    · rw [hpath, hrest]
      rfl
  have hremoved : ∀ c ∈ parts.path ++ '?' :: query, isUnsafe c = false := by
    intro c hc
    rcases List.mem_append.mp hc with hc | hc
    · exact hread c (pathOf_subset tail (hpath ▸ hc))
    · rcases List.mem_cons.mp hc with rfl | hc
      · rfl
      · rcases hchars c hc with rfl | hc
        · rfl
        · exact hread c (queryOf_subset tail (hquery ▸ hc))
  obtain ⟨q, hidentity⟩ := identity_of_variant laws h hinvariant habsolute hscheme hpath
    (fun _ hc => hc) hends hremoved h.allowed h.port h.host
    ⟨rfl, rfl, rfl, Iff.rfl, Iff.rfl, rfl, hpathOf.symm, by rw [hqueryOf, hsame, hkept]⟩
  have hqueries := hidentity.query
  rw [hkept, queryOf_rdropWhile fun c hc => laws.isSpace_endsNetloc hc, if_neg hall,
    hqueryOf] at hqueries
  exact hother hqueries.symm

/-- The same for the path, when no segment is kept. -/
theorem trimmed_path (hkept : keptSegments U parts.query = []) : Trimmed U parts.path := by
  obtain ⟨name, tail, habsolute, hparts⟩ := h.absolute laws
  have hscheme : parts.scheme = U.lower (String.ofList name) := by rw [hparts]
  have hpath : parts.path = pathOf tail := by rw [hparts]
  have hread : ∀ c ∈ tail, isUnsafe c = false := fun c hc => unsafe_tail habsolute hc
  have hnot := hpath ▸ not_mem_pathOf tail
  have hpathOf : pathOf parts.path = parts.path := by
    rw [pathOf, takeWhile_of_not_mem hnot.1, takeWhile_of_not_mem hnot.2]
  have hqueryOf : queryOf parts.path = [] := by
    rw [queryOf, takeWhile_of_not_mem hnot.1, after_of_not_mem hnot.2]
  rcases hpath ▸ pathOf_head habsolute.tail with hnil | ⟨rest, hrest⟩
  · rw [hnil]
    rfl
  · obtain ⟨q, hidentity⟩ := identity_of_variant laws h hinvariant habsolute hscheme hpath
      (fun _ hc => hc) (by rw [hrest]; rfl)
      (fun c hc => hread c (pathOf_subset tail (hpath ▸ hc))) h.allowed h.port h.host
      ⟨rfl, rfl, rfl, Iff.rfl, Iff.rfl, rfl, hpathOf.symm, by rw [hkept, hqueryOf]; rfl⟩
    have hslash : U.isSpace '/' = false := laws.isSpace_endsNetloc (by decide)
    have htrim : parts.path.rdropWhile U.isSpace = '/' :: rest.rdropWhile U.isSpace := by
      rw [hrest]
      exact rdropWhile_append_cons hslash [] rest
    have hpaths := hidentity.path
    rw [pathOf_rdropWhile fun c hc => laws.isSpace_endsNetloc hc, if_neg (not_or.mpr hnot), hpathOf,
      htrim, if_neg (List.cons_ne_nil _ _), if_neg (by rw [hrest]; exact List.cons_ne_nil _ _),
      ← htrim] at hpaths
    exact hpaths.symm

/-- And for the host, when there is no path and no port that is written. -/
theorem trimmed_host (hkept : keptSegments U parts.query = []) (hempty : parts.path = [])
    (hshown : shownPort parts.scheme p = none) :
    Trimmed U (hostText (hostinfo parts.netloc)) := by
  obtain ⟨name, tail, habsolute, hparts⟩ := h.absolute laws
  have hscheme : parts.scheme = U.lower (String.ofList name) := by rw [hparts]
  have hpath : parts.path = pathOf tail := by rw [hparts]
  have hallowed := h.allowed
  rw [netlocAllowed, Bool.and_eq_true] at hallowed
  obtain ⟨hsub, hmem⟩ := mem_withoutPort hallowed.1 h.port
  have hinfo : hostinfo (withoutPort parts.netloc) = hostText (hostinfo parts.netloc) :=
    (front_append (not_mem_hostText parts.netloc)).1
  have hhost :
      hostName (hostinfo (withoutPort parts.netloc)) = hostName (hostinfo parts.netloc) := by
    rw [hinfo, (hostText_spec _).1]
  have hallowed' : netlocAllowed U ipLiteral (withoutPort parts.netloc) = true := by
    rw [netlocAllowed, bracketsAllowed_withoutPort hallowed.1 h.port, Bool.true_and,
      List.all_eq_true]
    exact fun c hc => List.all_eq_true.mp hallowed.2 c (hsub hc)
  have hport : effectivePort parts.scheme p = effectivePort parts.scheme none :=
    shownPort_eq_iff.mp hshown
  have hopen := ((hmem '[' (by decide) (by decide)).1).symm
  have hclose := ((hmem ']' (by decide) (by decide)).1).symm
  rw [← hinfo] at hopen hclose
  -- the URL without a port
  have hends : ([] : List Char).head?.all endsNetloc = true := rfl
  obtain ⟨q, hidentity⟩ := identity_of_variant laws h hinvariant habsolute hscheme hpath
    (fun c hc => hsub hc) hends (fun c hc => absurd hc List.not_mem_nil) hallowed'
    (port_withoutPort parts.netloc) (by rw [hhost]; exact h.host)
    ⟨rfl, (front_append (not_mem_hostText parts.netloc)).2.symm,
      by rw [lowerHost, lowerHost, hhost], hopen, hclose, hport, hempty, hkept⟩
  by_contra hspace
  have hnot := mt (trimmed_hostText_iff laws h.host).mpr hspace
  rw [not_or] at hnot
  have hat : U.isSpace '@' = false := laws.isSpace_graphic '@' (by decide) (by decide)
  have hbracket : U.isSpace '[' = false := laws.isSpace_graphic '[' (by decide) (by decide)
  have hstripped : '@' ∉ (hostText (hostinfo parts.netloc)).rdropWhile U.isSpace := fun hmem =>
    not_mem_hostText parts.netloc ((List.rdropWhile_prefix _ _).subset hmem)
  have hsame := hidentity.host
  rw [if_pos rfl, withoutPort, front_rdropWhile hat, lowerHost, lowerHost,
    (front_append hstripped).1, hostName_rdropWhile hbracket hnot.1] at hsame
  refine hnot.2 ?_
  rw [lowerHost, hsame, trimmed_lower_iff laws]
  exact List.rdropWhile_idempotent _ _

end Exposed

/-! ## Normal forms -/

/-- **The result is a normal form exactly for the plain URLs.** -/
theorem normalForm_iff {url : String} {parts : Split} {p : Option ℕ}
    (h : Parsed U ipLiteral (U.strip url) parts p) :
    NormalForm U ipLiteral urljoin url parts p ↔ Plain U parts p := by
  constructor
  · intro hnormal
    have hresult : canonicalizeUrl U (standardUrls U ipLiteral urljoin) url =
        some (String.ofList (canonicalText U parts p)) := canonicalizeUrl_of_parsed laws h
    exact
      { brackets := plain_brackets laws h hresult (hnormal.idempotent _ hresult)
        query := trimmed_query laws h hnormal.invariant
        path := trimmed_path laws h hnormal.invariant
        host := trimmed_host laws h hnormal.invariant }
  · intro hplain
    exact
      { idempotent := fun r hr => idempotent_of_plain laws h hplain hr
        invariant := fun url' parts' p' h' hsame => invariant_of_plain laws h hplain h' hsame
        separates := fun url' parts' p' h' heq => separates_of_parsed laws h h' heq }

end Proofs

/-! ### Two URLs -/

/-- The addresses in brackets: the one of the machine itself. -/
def loopback (host : List Char) : Bool := host = [':', ':', '1']

theorem loopback_urlLaws : UrlLaws .ascii loopback := ascii_urlLaws fun host h => by
  rw [of_decide_eq_true h]
  decide

/-- The parts of `https://news.example/a?b=1`. -/
def newsParts : Split where
  scheme := "https"
  netloc := ['n', 'e', 'w', 's', '.', 'e', 'x', 'a', 'm', 'p', 'l', 'e']
  path := ['/', 'a']
  query := ['b', '=', '1']
  fragment := []

/-- A URL as publishers write it. -/
theorem normalForm_news :
    NormalForm .ascii loopback (fun _ _ => none) "https://news.example/a?b=1" newsParts none := by
  have hreads : Parsed .ascii loopback (Unicode.ascii.strip "https://news.example/a?b=1") newsParts
      none := ⟨by decide +kernel, by decide, by decide, by decide⟩
  have hkept : keptSegments .ascii newsParts.query = [['b', '=', '1']] := by decide +kernel
  refine (normalForm_iff loopback_urlLaws hreads).mpr ⟨by decide, ?_, ?_, ?_⟩
  · rw [hkept]
    intro last hlast
    rw [← Option.some.inj hlast]
    rfl
  · rw [hkept]
    exact fun hnil => absurd hnil (List.cons_ne_nil _ _)
  · rw [hkept]
    exact fun hnil => absurd hnil (List.cons_ne_nil _ _)

/-- **A space in front of a fragment** is kept the first time and stripped the second; and it is
not kept when there is no fragment. -/
theorem exposed_space :
    Parsed .ascii loopback (Unicode.ascii.strip "http://h/a #f")
        ⟨"http", ['h'], ['/', 'a', ' '], [], ['f']⟩ none ∧
      canonicalizeUrl .ascii (standardUrls .ascii loopback fun _ _ => none) "http://h/a #f" =
        some "http://h/a " ∧
      canonicalizeUrl .ascii (standardUrls .ascii loopback fun _ _ => none) "http://h/a " =
        some "http://h/a" ∧
      ¬ NormalForm .ascii loopback (fun _ _ => none) "http://h/a #f"
        ⟨"http", ['h'], ['/', 'a', ' '], [], ['f']⟩ none := by
  have hfirst : canonicalizeUrl .ascii (standardUrls .ascii loopback fun _ _ => none)
      "http://h/a #f" = some "http://h/a " := by decide +kernel
  have hsecond : canonicalizeUrl .ascii (standardUrls .ascii loopback fun _ _ => none)
      "http://h/a " = some "http://h/a" := by decide +kernel
  refine ⟨⟨by decide +kernel, by decide, by decide, by decide⟩, hfirst, hsecond, fun hnormal => ?_⟩
  have hagain := hnormal.idempotent _ hfirst
  rw [hsecond] at hagain
  exact absurd (Option.some.inj hagain) (by decide)

end ProcureSignal.Retrieval
