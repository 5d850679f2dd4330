/-
# Blocked sources

`SourceTrustFilter` of `normalization/source_trust.py`.  The domain of a URL is its network location
as it is written, in lower case and with every `www.` taken out of it; the host, which the rest of
the pipeline goes by, is neither.

* `getDomain`, `isBlocked` : the filter;
* `Unevadable` : what blocking a host should mean for a URL;
* `unevadable_iff` : **for which spellings it means that**;
* `read_of_trimmed` : the filter does not raise at a URL without white space around it;
* `written_port` : a port of a blocked host that is written although it is the default.
-/
import ProcureSignal.Library.Lowercase
import ProcureSignal.Retrieval.NormalForm

namespace ProcureSignal.Normalization.SourceTrustFilter

open Urllib Retrieval

/-! ## The filter -/

/-- `BLOCKED_DOMAINS`. -/
def blockedDomains : List String := ["example-spam.com", "fake-news.ru", "content-farm.com"]

/-- `netloc.replace("www.", "")`. -/
def removeWww : List Char → List Char
  | 'w' :: 'w' :: 'w' :: '.' :: rest => removeWww rest
  | c :: rest => c :: removeWww rest
  | [] => []

section Filter

variable (U : Unicode) (ipLiteral : List Char → Bool)

/-- `get_domain`; absent when `urlparse` raises. -/
def getDomain (url : String) : Option String :=
  if url = "" then some ""
  else
    (urlsplit U ipLiteral (U.lower url)).map fun parsed => String.ofList (removeWww parsed.netloc)

/-- `is_blocked`. -/
def isBlocked (url : String) : Option Bool :=
  (getDomain U ipLiteral url).map fun domain => domain ∈ blockedDomains

end Filter

/-! ## What is asked for -/

/-- A host without one leading `www.`. -/
def withoutWww : List Char → List Char
  | 'w' :: 'w' :: 'w' :: '.' :: rest => rest
  | host => host

/-- A host, in lower case, is a blocked domain, with or without a leading `www.`. -/
def BlockedHost (host : List Char) : Prop := String.ofList (withoutWww host) ∈ blockedDomains

instance (host : List Char) : Decidable (BlockedHost host) :=
  inferInstanceAs (Decidable (_ ∈ _))

/-- The filter answers for a URL as for its canonical form, and by its host. -/
def Unevadable (U : Unicode) (ipLiteral : List Char → Bool)
    (urljoin : String → String → Option String) (url : String) (host : List Char) : Prop :=
  ∃ blocked : Bool, isBlocked U ipLiteral url = some blocked ∧
    (∃ canonical, canonicalizeUrl U (standardUrls U ipLiteral urljoin) url = some canonical ∧
      isBlocked U ipLiteral canonical = some blocked) ∧
    (blocked = true ↔ BlockedHost host)

/-- What is left of a network location is a blocked domain. -/
def Listed (netloc : List Char) : Prop := String.ofList (removeWww netloc) ∈ blockedDomains

instance (netloc : List Char) : Decidable (Listed netloc) := inferInstanceAs (Decidable (_ ∈ _))

/-- The spellings of a URL at which the filter goes by the host. -/
structure Spelled (U : Unicode) (ipLiteral : List Char → Bool) (url : String) (parts : Split)
    (p : Option ℕ) : Prop where
  /-- the URL can be split with the white space around it -/
  read : (urlsplit U ipLiteral (U.lower url)).isSome = true
  /-- a host without a colon has no bracket -/
  brackets : ':' ∈ hostName (hostinfo parts.netloc) ∨
    '[' ∉ hostName (hostinfo parts.netloc) ∧ ']' ∉ hostName (hostinfo parts.netloc)
  /-- with a blocked host, the URL has no user information, no port, and no white space that
  belongs to the network location or hides it -/
  blocked : BlockedHost (lowerHost U parts.netloc) →
    rawNetloc url.toList = hostName (hostinfo parts.netloc)
  /-- a host that is blocked only with every `www.` taken out has a port other than the default -/
  other : ¬ BlockedHost (lowerHost U parts.netloc) → Listed (lowerHost U parts.netloc) →
    shownPort parts.scheme p ≠ none

/-! ## Taking out `www.` -/

theorem removeWww_map_unfinal (l : List Char) :
    removeWww (l.map unfinal) = (removeWww l).map unfinal := by
  fun_induction removeWww l with
  | case1 rest ih =>
      rw [← ih]
      rfl
  | case2 c rest hnot ih =>
      rw [List.map_cons, List.map_cons, removeWww, ih]
      intro rest' hc hrest
      obtain ⟨d₁, l₁, rfl, hd₁, h₁⟩ := List.map_eq_cons_iff.mp hrest
      obtain ⟨d₂, l₂, rfl, hd₂, h₂⟩ := List.map_eq_cons_iff.mp h₁
      obtain ⟨d₃, l₃, rfl, hd₃, -⟩ := List.map_eq_cons_iff.mp h₂
      exact hnot l₃ (eq_of_unfinal hc (by decide)) (by
        rw [eq_of_unfinal hd₁ (by decide), eq_of_unfinal hd₂ (by decide),
          eq_of_unfinal hd₃ (by decide)])
  | case3 => rfl

/-- Characters other than those of `www.` stay. -/
theorem mem_removeWww {c : Char} (hw : c ≠ 'w') (hdot : c ≠ '.') {l : List Char} (h : c ∈ l) :
    c ∈ removeWww l := by
  fun_induction removeWww l with
  | case1 rest ih =>
      simp only [List.mem_cons, hw, hdot, false_or] at h
      exact ih h
  | case2 d rest hnot ih =>
      rcases List.mem_cons.mp h with rfl | h
      · exact List.mem_cons_self
      · exact List.mem_cons_of_mem _ (ih h)
  | case3 => exact h

theorem eq_of_mem_blockedDomains {l : List Char} (h : String.ofList l ∈ blockedDomains) :
    l = "example-spam.com".toList ∨ l = "fake-news.ru".toList ∨ l = "content-farm.com".toList := by
  simp only [blockedDomains, List.mem_cons, List.not_mem_nil, or_false] at h
  simpa only [← String.toList_inj, String.toList_ofList] using h

/-- The characters of a blocked domain. -/
theorem graphic_of_mem_blockedDomains {l : List Char} (h : String.ofList l ∈ blockedDomains) :
    ∀ c ∈ l, (0x21 ≤ c.toNat ∧ c.toNat ≤ 0x7E) ∧ c ∉ ['@', ':', '[', ']'] := by
  have hall : (blockedDomains.all fun domain => domain.toList.all fun c =>
      decide ((0x21 ≤ c.toNat ∧ c.toNat ≤ 0x7E) ∧ c ∉ ['@', ':', '[', ']'])) = true := by
    decide +kernel
  intro c hc
  rw [← String.toList_ofList (l := l)] at hc
  exact of_decide_eq_true (List.all_eq_true.mp (List.all_eq_true.mp hall _ h) c hc)

/-- A blocked host is blocked with every `www.` taken out. -/
theorem BlockedHost.listed {host : List Char} (h : BlockedHost host) : Listed host := by
  have hself : ∀ l : List Char, String.ofList l ∈ blockedDomains → removeWww l = l := by
    intro l hl
    rcases eq_of_mem_blockedDomains hl with rfl | rfl | rfl <;> decide +kernel
  unfold BlockedHost withoutWww at h
  unfold Listed
  split at h
  · rw [removeWww, hself _ h]
    exact h
  · rw [hself _ h]
    exact h

theorem listed_map_unfinal (l : List Char) : Listed (l.map unfinal) ↔ Listed l := by
  have hascii : ∀ domain ∈ blockedDomains, ∀ c ∈ domain.toList, c.toNat < 0x80 := by
    intro domain hdomain c hc
    rw [← String.ofList_toList (s := domain)] at hdomain
    have hle := (graphic_of_mem_blockedDomains hdomain c hc).1.2
    omega
  have htext : ∀ (m : List Char) domain, domain ∈ blockedDomains →
      (String.ofList (m.map unfinal) = domain ↔ String.ofList m = domain) := by
    intro m domain hdomain
    rw [← String.toList_inj, ← String.toList_inj, String.toList_ofList, String.toList_ofList]
    exact map_unfinal_eq_iff (hascii domain hdomain)
  rw [Listed, Listed, removeWww_map_unfinal]
  constructor
  · intro h
    rw [(htext _ _ h).mp rfl]
    exact h
  · intro h
    rw [(htext _ _ h).mpr rfl]
    exact h

/-- Nothing but the characters of `www.` is taken out. -/
theorem Listed.graphic {l : List Char} (h : Listed l) {c : Char} (hc : c ∈ l) :
    (0x21 ≤ c.toNat ∧ c.toNat ≤ 0x7E) ∧ c ∉ ['@', ':', '[', ']'] := by
  by_cases hw : c = 'w'
  · rw [hw]
    decide
  by_cases hdot : c = '.'
  · rw [hdot]
    decide
  exact graphic_of_mem_blockedDomains h c (mem_removeWww hw hdot hc)

/-! ## The network location that is looked at -/

section Networks

variable {U : Unicode} {ipLiteral : List Char → Bool} {urljoin : String → String → Option String}
  (laws : CaseLaws U ipLiteral)

theorem isBlocked_eq {url : String} (hne : url ≠ "") :
    isBlocked U ipLiteral url =
      if netlocAllowed U ipLiteral (rawNetloc (U.lower url).toList) then
        some (decide (Listed (rawNetloc (U.lower url).toList)))
      else none := by
  rw [isBlocked, getDomain, if_neg hne, urlsplit, netloc_split]
  split_ifs with hallowed
  · rw [Option.map_some, Option.map_some, netloc_split]
    rfl
  · rfl

theorem isSome_urlsplit_iff (url : String) : (urlsplit U ipLiteral url).isSome = true ↔
    netlocAllowed U ipLiteral (rawNetloc url.toList) = true := by
  rw [urlsplit, netloc_split]
  split_ifs with hallowed
  · exact iff_of_true rfl hallowed
  · exact iff_of_false Bool.false_ne_true hallowed

include laws

/-- **White space around a URL**: behind it, it belongs to the network location or to the rest; in
front of it, it is skipped or it hides the network location. -/
theorem raw_cases {url : String} {parts : Split} {p : Option ℕ}
    (h : Parsed U ipLiteral (U.strip url) parts p) :
    (∃ name tail space, Absolute (clean url.toList) name (parts.netloc ++ space) tail ∧
      ∀ c ∈ space, U.isSpace c = true) ∨
    ∃ c rest, clean url.toList = c :: rest ∧ U.isSpace c = true ∧ 0x7F ≤ c.toNat := by
  obtain ⟨name, tail, habsolute, -⟩ := h.absolute laws.toUrlLaws
  obtain ⟨before, behind, hurl, hspace⟩ := U.exists_strip url
  by_cases hcontrol : ∀ c ∈ before, isC0OrSpace c = true
  · left
    obtain ⟨first, rest, hname, -, -⟩ := exists_head_of_isScheme habsolute.scheme
    have hne : (U.strip url).toList.dropWhile isC0OrSpace ≠ [] := by
      intro hnil
      have heq := habsolute.eq
      rw [clean, hnil, hname] at heq
      exact absurd heq (by simp)
    have hclean : clean url.toList =
        clean (U.strip url).toList ++ behind.filter (!isUnsafe ·) := by
      rw [clean, hurl, List.append_assoc, List.dropWhile_append_of_pos hcontrol,
        List.dropWhile_append, if_neg (by simpa using hne), List.filter_append, clean]
    have hends : ∀ c ∈ behind.filter (!isUnsafe ·),
        U.isSpace c = true ∧ endsNetloc c = false := by
      intro c hc
      have hcspace := hspace c (List.mem_append_right _ (List.mem_of_mem_filter hc))
      refine ⟨hcspace, ?_⟩
      by_contra hends
      rw [Bool.not_eq_false] at hends
      rw [laws.toUrlLaws.isSpace_endsNetloc hends] at hcspace
      exact Bool.false_ne_true hcspace
    cases htail : tail with
    | nil =>
        refine ⟨name, [], behind.filter (!isUnsafe ·), ⟨?_, habsolute.scheme, ?_, rfl⟩,
          fun c hc => (hends c hc).1⟩
        · rw [hclean, habsolute.eq, htail]
          simp
        · intro c hc
          rcases List.mem_append.mp hc with hc | hc
          · exact habsolute.netloc c hc
          · exact (hends c hc).2
    | cons d rest =>
        refine ⟨name, tail ++ behind.filter (!isUnsafe ·), [], ⟨?_, habsolute.scheme, ?_, ?_⟩,
          fun c hc => absurd hc List.not_mem_nil⟩
        · rw [hclean, habsolute.eq]
          simp
        · rw [List.append_nil]
          exact habsolute.netloc
        · have hhead := habsolute.tail
          rw [htail] at hhead ⊢
          exact hhead
  · right
    have hne : before.dropWhile isC0OrSpace ≠ [] := fun hnil =>
      hcontrol (List.dropWhile_eq_nil_iff.mp hnil)
    obtain ⟨c, rest, hc⟩ := List.exists_cons_of_ne_nil hne
    have hnot : isC0OrSpace c = false := by
      have hhead := List.head?_dropWhile_not isC0OrSpace before
      rw [hc] at hhead
      simpa using hhead
    have hcspace : U.isSpace c = true := by
      refine hspace c (List.mem_append_left _ ((List.dropWhile_suffix isC0OrSpace).subset ?_))
      rw [hc]
      exact List.mem_cons_self
    have hread : isUnsafe c = false := by
      by_contra hunsafe
      rw [Bool.not_eq_false, isUnsafe, decide_eq_true_eq] at hunsafe
      simp only [List.mem_cons, List.not_mem_nil, or_false] at hunsafe
      rcases hunsafe with rfl | rfl | rfl <;> exact absurd hnot (by decide)
    refine ⟨c, (rest ++ (U.strip url).toList ++ behind).filter (!isUnsafe ·), ?_, hcspace, ?_⟩
    · rw [clean, hurl, List.append_assoc, List.dropWhile_append, hc, if_neg (by simp),
        List.cons_append, List.filter_cons_of_pos (by rw [hread]; rfl), List.append_assoc]
    · by_contra hlow
      have hhigh : ¬ c.toNat ≤ 0x20 := of_decide_eq_false hnot
      rw [laws.isSpace_graphic c (by omega) (by omega)] at hcspace
      exact Bool.false_ne_true hcspace

/-- The host, in lower case. -/
theorem listed_lowerHost_iff (netloc : List Char) :
    Listed (lowerHost U netloc) ↔ Listed ((hostName (hostinfo netloc)).flatMap (lowerChar U)) := by
  rw [← map_lower laws, listed_map_unfinal]
  rfl

/-- **The filter looks at the host** when the network location is the host, and finds nothing in
any other. -/
theorem listed_rawNetloc_iff {url : String} {parts : Split} {p : Option ℕ}
    (h : Parsed U ipLiteral (U.strip url) parts p) :
    Listed (rawNetloc (U.lower url).toList) ↔
      rawNetloc url.toList = hostName (hostinfo parts.netloc) ∧
        Listed (lowerHost U parts.netloc) := by
  have hkeeps := keeps_lowerChar laws
  rcases raw_cases laws h with ⟨name, tail, space, habsolute, hspace⟩ | ⟨c, rest, hclean, hc, hhigh⟩
  · rw [← listed_map_unfinal, rawNetloc_lower laws habsolute, habsolute.rawNetloc_eq,
      listed_lowerHost_iff laws]
    constructor
    · intro hlisted
      have hdelimiter : ∀ d ∈ ['@', ':', '[', ']'], d ∉ parts.netloc := by
        intro d hd hmem
        have hascii : d.toNat < 0x80 ∧ d.isAlpha = false := by
          simp only [List.mem_cons, List.not_mem_nil, or_false] at hd
          rcases hd with rfl | rfl | rfl | rfl <;> decide
        have hin := (hkeeps.mem_flatMap hascii.1 hascii.2 _).mpr (List.mem_append_left space hmem)
        exact (hlisted.graphic hin).2 hd
      have hnil : space = [] := by
        rw [List.eq_nil_iff_forall_not_mem]
        intro c hc
        obtain ⟨d, rest, hd⟩ := List.exists_cons_of_ne_nil (hkeeps.ne_nil c)
        have hself : lowerChar U c = [unfinal c] := by
          have hboundary := laws.lower_boundary "" c "" (Or.inr (hspace c hc))
          rw [laws.toUrlLaws.lower_empty, String.append_empty, String.empty_append] at hboundary
          rw [lowerChar, hboundary]
          simp
        have hin : unfinal c ∈ (parts.netloc ++ space).flatMap (lowerChar U) := by
          refine List.mem_flatMap.mpr ⟨c, List.mem_append_right _ hc, ?_⟩
          rw [hself]
          exact List.mem_singleton_self _
        have hgraphic := (hlisted.graphic hin).1
        rw [← eq_of_unfinal rfl (by omega : (unfinal c).toNat < 0x80)] at hgraphic
        have hnot := laws.isSpace_graphic c hgraphic.1 hgraphic.2
        rw [hspace c hc] at hnot
        exact Bool.false_ne_true hnot.symm
      have hhost : hostName (hostinfo parts.netloc) = parts.netloc := by
        rw [hostinfo_eq_self (hdelimiter '@' (by decide)), hostName,
          if_neg (hdelimiter '[' (by decide)), takeWhile_of_not_mem (hdelimiter ':' (by decide))]
      rw [hnil, List.append_nil] at hlisted ⊢
      rw [hhost]
      exact ⟨rfl, hlisted⟩
    · rintro ⟨heq, hlisted⟩
      rw [heq]
      exact hlisted
  · rw [rawNetloc_lower_of_space laws hclean hc hhigh, rawNetloc_of_head hclean hhigh]
    exact iff_of_false (by decide) fun hboth => h.host hboth.1.symm

/-- A blocked host that is all of the network location has no port. -/
theorem port_of_bare {url : String} {parts : Split} {p : Option ℕ}
    (h : Parsed U ipLiteral (U.strip url) parts p)
    (hbare : rawNetloc url.toList = hostName (hostinfo parts.netloc))
    (hlisted : Listed (lowerHost U parts.netloc)) : p = none := by
  rcases raw_cases laws h with ⟨name, tail, space, habsolute, -⟩ | ⟨c, rest, hclean, -, hhigh⟩
  · have hmem : ∀ d ∈ [':', '['], d ∉ hostinfo parts.netloc := by
      intro d hd hin
      have hraw : d ∈ hostName (hostinfo parts.netloc) := by
        rw [← hbare, habsolute.rawNetloc_eq]
        exact List.mem_append_left _ (hostinfo_subset _ hin)
      have hhost : d ∈ lowerHost U parts.netloc := by
        simp only [List.mem_cons, List.not_mem_nil, or_false] at hd
        rcases hd with rfl | rfl <;>
          exact (mem_lowerHost_iff laws.toUrlLaws _ (by decide) (by decide)).mpr hraw
      refine (hlisted.graphic hhost).2 ?_
      simp only [List.mem_cons, List.not_mem_nil, or_false] at hd
      rcases hd with rfl | rfl <;> decide
    have hport := h.port
    rw [port, portText, if_neg (hmem '[' (by decide)), after_of_not_mem (hmem ':' (by decide))]
      at hport
    exact (Option.some.inj hport).symm
  · rw [rawNetloc_of_head hclean hhigh] at hbare
    exact absurd hbare.symm h.host

/-- A URL without white space around it is split in lower case. -/
theorem read_of_trimmed {url : String} {parts : Split} {p : Option ℕ}
    (h : Parsed U ipLiteral url parts p) : (urlsplit U ipLiteral (U.lower url)).isSome = true := by
  obtain ⟨name, tail, habsolute, -⟩ := h.absolute laws.toUrlLaws
  rw [isSome_urlsplit_iff]
  exact netlocAllowed_lower laws (rawNetloc_lower laws habsolute) h.allowed

/-! ## The canonical form -/

/-- **The filter looks at the canonical form** when no port is written there. -/
theorem listed_canonical_iff {url : String} {parts : Split} {p : Option ℕ}
    (h : Parsed U ipLiteral (U.strip url) parts p) :
    Listed (rawNetloc (U.lower (String.ofList (canonicalText U parts p))).toList) ↔
      shownPort parts.scheme p = none ∧ Listed (lowerHost U parts.netloc) := by
  obtain ⟨name, tail, habsolute, hparts⟩ := h.absolute laws.toUrlLaws
  have htext := absolute_canonicalText laws.toUrlLaws habsolute h.scheme rfl (by rw [hparts]) p
  rw [← String.toList_ofList (l := canonicalText U parts p)] at htext
  rw [← listed_map_unfinal, rawNetloc_lower laws htext]
  have hkeeps := keeps_lowerChar laws
  have hcolon : ∀ {l : List Char}, ':' ∈ l → ¬ Listed (l.flatMap (lowerChar U)) := by
    intro l hmem hlisted
    have hin := (hkeeps.mem_flatMap (d := ':') (by decide) (by decide) l).mpr hmem
    exact (hlisted.graphic hin).2 (by decide)
  by_cases hhost : ':' ∈ lowerHost U parts.netloc
  · refine iff_of_false (hcolon ?_) fun hboth => (hboth.2.graphic hhost).2 (by decide)
    rw [canonicalNetloc, bracketed, if_pos hhost]
    simp [hhost]
  cases hshown : shownPort parts.scheme p with
  | some n =>
      refine iff_of_false (hcolon ?_) fun hboth => Option.some_ne_none n hboth.1
      exact List.mem_append_right _ List.mem_cons_self
  | none =>
      have hnetloc : canonicalNetloc (lowerHost U parts.netloc) none =
          lowerHost U parts.netloc := by
        rw [canonicalNetloc, bracketed, if_neg hhost]
        exact List.append_nil _
      have htwice : (lowerHost U parts.netloc).flatMap (lowerChar U) =
          (lowerHost U parts.netloc).map unfinal := by
        rw [← map_lower laws, lowerHost, String.ofList_toList, laws.lower_lower]
      rw [hnetloc, htwice, listed_map_unfinal]
      exact (and_iff_right rfl).symm

/-- **The canonical form can be split** when its host has a colon or no bracket. -/
theorem read_canonical_iff {url : String} {parts : Split} {p : Option ℕ}
    (h : Parsed U ipLiteral (U.strip url) parts p) :
    netlocAllowed U ipLiteral
        (rawNetloc (U.lower (String.ofList (canonicalText U parts p))).toList) = true ↔
      (':' ∈ hostName (hostinfo parts.netloc) ∨
        '[' ∉ hostName (hostinfo parts.netloc) ∧ ']' ∉ hostName (hostinfo parts.netloc)) := by
  obtain ⟨name, tail, habsolute, hparts⟩ := h.absolute laws.toUrlLaws
  have htext := absolute_canonicalText laws.toUrlLaws habsolute h.scheme rfl (by rw [hparts]) p
  rw [← String.toList_ofList (l := canonicalText U parts p)] at htext
  have hlower := rawNetloc_lower laws htext
  have hhost : IsHost (lowerHost U parts.netloc) := isHost_lower laws.toUrlLaws parts.netloc
  have hmem : ∀ d, d.toNat < 0x80 → d.isAlpha = false →
      (d ∈ lowerHost U parts.netloc ↔ d ∈ hostName (hostinfo parts.netloc)) := fun d hd halpha =>
    mem_lowerHost_iff laws.toUrlLaws _ hd halpha
  rw [← hmem ':' (by decide) (by decide), ← hmem '[' (by decide) (by decide),
    ← hmem ']' (by decide) (by decide)]
  constructor
  · intro hallowed
    by_contra hnot
    rw [not_or] at hnot
    have hrejected := bracketsAllowed_lower laws hlower
    rw [not_bracketsAllowed_canonicalNetloc _ hhost hnot.1 (or_iff_not_and_not.mpr hnot.2)]
      at hrejected
    rw [netlocAllowed, hrejected, Bool.false_and] at hallowed
    exact Bool.false_ne_true hallowed
  · intro hplain
    refine netlocAllowed_lower laws hlower ?_
    have hnetloc := h.allowed
    rw [netlocAllowed, Bool.and_eq_true] at hnetloc ⊢
    refine ⟨bracketsAllowed_canonicalNetloc hhost hplain fun hcolon => ?_,
      hides_canonicalNetloc laws.toUrlLaws hnetloc.2 _⟩
    exact laws.ipLiteral_lower _
      (ipLiteral_hostName hnetloc.1 ((hmem ':' (by decide) (by decide)).mp hcolon))

/-- **Blocking cannot be evaded** at exactly the plain spellings. -/
theorem unevadable_iff {url : String} {parts : Split} {p : Option ℕ}
    (h : Parsed U ipLiteral (U.strip url) parts p) :
    Unevadable U ipLiteral urljoin url (lowerHost U parts.netloc) ↔
      Spelled U ipLiteral url parts p := by
  have hne : url ≠ "" := by
    rintro rfl
    have hnil : U.strip "" = "" := rfl
    obtain ⟨name, tail, habsolute, -⟩ := h.absolute laws.toUrlLaws
    have heq := habsolute.eq
    rw [hnil] at heq
    exact absurd heq.symm (by simp [clean])
  have hcanonical_ne : String.ofList (canonicalText U parts p) ≠ "" := by
    rw [Ne, ← String.toList_inj, String.toList_ofList]
    simp [canonicalText]
  have hresult : canonicalizeUrl U (standardUrls U ipLiteral urljoin) url =
      some (String.ofList (canonicalText U parts p)) := canonicalizeUrl_of_parsed laws.toUrlLaws h
  have hlisted := listed_rawNetloc_iff laws h
  have hcanonical := listed_canonical_iff laws h
  constructor
  · rintro ⟨blocked, hblocked, ⟨canonical, heq, hsame⟩, hhost⟩
    obtain rfl := Option.some.inj (hresult.symm.trans heq)
    rw [isBlocked_eq hne] at hblocked
    rw [isBlocked_eq hcanonical_ne] at hsame
    split_ifs at hblocked hsame with hallowed hallowed'
    have hblocked := Option.some.inj hblocked
    have hsame := Option.some.inj hsame
    refine ⟨(isSome_urlsplit_iff _).mpr hallowed, (read_canonical_iff laws h).mp hallowed',
      fun hin => ?_, fun hout hhost_listed hshown => ?_⟩
    · rw [← hhost, ← hblocked, decide_eq_true_eq] at hin
      exact (hlisted.mp hin).1
    · rw [← hhost, ← hsame, decide_eq_true_eq] at hout
      exact hout (hcanonical.mpr ⟨hshown, hhost_listed⟩)
  · intro hspelled
    refine ⟨decide (BlockedHost (lowerHost U parts.netloc)), ?_, ⟨_, hresult, ?_⟩,
      decide_eq_true_iff⟩
    · rw [isBlocked_eq hne, if_pos ((isSome_urlsplit_iff _).mp hspelled.read)]
      refine congrArg some (decide_eq_decide.mpr (hlisted.trans ⟨fun hboth => ?_, fun hin => ?_⟩))
      · by_contra hout
        refine hspelled.other hout hboth.2 ?_
        rw [port_of_bare laws h hboth.1 hboth.2]
        rfl
      · exact ⟨hspelled.blocked hin, hin.listed⟩
    · rw [isBlocked_eq hcanonical_ne, if_pos ((read_canonical_iff laws h).mpr hspelled.brackets)]
      refine congrArg some
        (decide_eq_decide.mpr (hcanonical.trans ⟨fun hboth => ?_, fun hin => ?_⟩))
      · by_contra hout
        exact hspelled.other hout hboth.2 hboth.1
      · refine ⟨?_, hin.listed⟩
        rw [port_of_bare laws h (hspelled.blocked hin) hin.listed]
        rfl

end Networks

/-! ## Two URLs -/

theorem loopback_caseLaws : CaseLaws .ascii loopback :=
  ascii_caseLaws loopback_urlLaws fun host => by
    have hascii : ∀ c ∈ [':', ':', '1'], c.toNat < 0x80 := by simp
    unfold loopback
    exact decide_eq_decide.mpr (map_unfinal_eq_iff hascii)

/-- The parts of `https://WWW.Fake-News.ru/story`. -/
def storyParts (netloc : String) : Split where
  scheme := "https"
  netloc := netloc.toList
  path := "/story".toList
  query := []
  fragment := []

/-- A blocked host in capitals is blocked, and so is its canonical form. -/
theorem unevadable_capitals :
    Unevadable .ascii loopback (fun _ _ => none) "https://WWW.Fake-News.ru/story"
      (lowerHost .ascii (storyParts "WWW.Fake-News.ru").netloc) := by
  have hreads : Parsed .ascii loopback (Unicode.ascii.strip "https://WWW.Fake-News.ru/story")
      (storyParts "WWW.Fake-News.ru") none :=
    ⟨by decide +kernel, by decide +kernel, by decide, by decide +kernel⟩
  exact (unevadable_iff loopback_caseLaws hreads).mpr
    ⟨by decide +kernel, by decide +kernel, fun _ => by decide +kernel,
      fun hout => absurd (by decide +kernel) hout⟩

/-- **The default port, written**: the URL is not blocked and its canonical form is. -/
theorem written_port :
    Parsed .ascii loopback (Unicode.ascii.strip "https://fake-news.ru:443/story")
        (storyParts "fake-news.ru:443") (some 443) ∧
      isBlocked .ascii loopback "https://fake-news.ru:443/story" = some false ∧
      canonicalizeUrl .ascii (standardUrls .ascii loopback fun _ _ => none)
        "https://fake-news.ru:443/story" = some "https://fake-news.ru/story" ∧
      isBlocked .ascii loopback "https://fake-news.ru/story" = some true ∧
      ¬ Unevadable .ascii loopback (fun _ _ => none) "https://fake-news.ru:443/story"
        (lowerHost .ascii (storyParts "fake-news.ru:443").netloc) := by
  have hfirst : isBlocked .ascii loopback "https://fake-news.ru:443/story" = some false := by
    decide +kernel
  have hcanonical : canonicalizeUrl .ascii (standardUrls .ascii loopback fun _ _ => none)
      "https://fake-news.ru:443/story" = some "https://fake-news.ru/story" := by decide +kernel
  have hsecond : isBlocked .ascii loopback "https://fake-news.ru/story" = some true := by
    decide +kernel
  refine ⟨⟨by decide +kernel, by decide +kernel, by decide, by decide +kernel⟩, hfirst, hcanonical,
    hsecond, ?_⟩
  rintro ⟨blocked, hblocked, ⟨canonical, heq, hsame⟩, -⟩
  obtain rfl := Option.some.inj (hcanonical.symm.trans heq)
  rw [hfirst] at hblocked
  rw [hsecond] at hsame
  exact absurd (Option.some.inj (hblocked.trans hsame.symm)) (by decide)

end ProcureSignal.Normalization.SourceTrustFilter
