/-
# Splitting a URL

`urlsplit`, `SplitResult` and `urlunsplit` of Python's `urllib.parse`, on the characters of a URL.

* `split` : scheme, network location, path, query and fragment;
* `hostName`, `portText` : the two sides of a network location;
* `netlocAllowed` : the network locations that are not rejected;
* `Absolute`, `split_absolute` : a URL put together from its parts is split into them;
* `split_eq_iff_absolute` : only such a URL has a network location.
-/
import ProcureSignal.Library.Unicode
import ProcureSignal.Library.Urlencoded

namespace Urllib

/-! ## Splitting -/

/-- `_WHATWG_C0_CONTROL_OR_SPACE`. -/
def isC0OrSpace (c : Char) : Bool := c.toNat ≤ 0x20

/-- `_UNSAFE_URL_BYTES_TO_REMOVE`. -/
def isUnsafe (c : Char) : Bool := c ∈ ['\t', '\n', '\r']

/-- The characters of a URL that are read. -/
def clean (url : List Char) : List Char := (url.dropWhile isC0OrSpace).filter fun c => !isUnsafe c

/-- `scheme_chars`. -/
def isSchemeChar (c : Char) : Bool := c.isAlphanum || c ∈ ['+', '-', '.']

/-- A name that can be a scheme: of scheme characters, a letter first. -/
def IsScheme (name : List Char) : Prop :=
  name.head?.any Char.isAlpha = true ∧ name.all isSchemeChar = true

instance (name : List Char) : Decidable (IsScheme name) := inferInstanceAs (Decidable (_ ∧ _))

/-- The scheme as it is written, if there is one, and what follows. -/
def splitScheme (url : List Char) : List Char × List Char :=
  let name := url.takeWhile (· ≠ ':')
  if ':' ∈ url ∧ IsScheme name then (name, after ':' url) else ([], url)

/-- The characters that end a network location. -/
def endsNetloc (c : Char) : Bool := c ∈ ['/', '?', '#']

/-- The network location and what follows. -/
def splitNetloc : List Char → List Char × List Char
  | '/' :: '/' :: rest => (rest.takeWhile (!endsNetloc ·), rest.dropWhile (!endsNetloc ·))
  | rest => ([], rest)

/-- The five parts of a URL. -/
@[ext]
structure Split where
  scheme : String
  netloc : List Char
  path : List Char
  query : List Char
  fragment : List Char
  deriving DecidableEq, Repr

/-- The path of what follows the network location. -/
def pathOf (tail : List Char) : List Char := (tail.takeWhile (· ≠ '#')).takeWhile (· ≠ '?')

/-- The query of what follows the network location. -/
def queryOf (tail : List Char) : List Char := after '?' (tail.takeWhile (· ≠ '#'))

/-- The parts of a URL whose characters are all read. -/
def split (U : Unicode) (url : List Char) : Split :=
  let (name, rest) := splitScheme url
  let (netloc, tail) := splitNetloc rest
  ⟨U.lower (String.ofList name), netloc, pathOf tail, queryOf tail, after '#' tail⟩

/-! ## Network locations -/

/-- What follows the user information. -/
def hostinfo (netloc : List Char) : List Char := netloc.rtakeWhile (· ≠ '@')

/-- The user information. -/
def userinfo (netloc : List Char) : Option (List Char) :=
  if '@' ∈ netloc then some (netloc.rdropWhile (· ≠ '@')).dropLast else none

/-- The host of a `hostinfo`, without brackets. -/
def hostName (info : List Char) : List Char :=
  if '[' ∈ info then (after '[' info).takeWhile (· ≠ ']') else info.takeWhile (· ≠ ':')

/-- The port of a `hostinfo`. -/
def portText (info : List Char) : List Char :=
  if '[' ∈ info then after ':' (after ']' (after '[' info)) else after ':' info

/-- The host as it is written. -/
def hostText (info : List Char) : List Char :=
  if '[' ∈ info then '[' :: hostName info ++ (if ']' ∈ info then [']'] else []) else hostName info

/-- `SplitResult.hostname`: in lower case but for the zone of an address. -/
def hostname (U : Unicode) (netloc : List Char) : Option String :=
  let name := hostName (hostinfo netloc)
  if name = [] then none
  else some (U.lower (String.ofList (name.takeWhile (· ≠ '%'))) ++
    String.ofList (name.dropWhile (· ≠ '%')))

/-- `SplitResult.port`; absent when reading it raises.  `int` reads at most 4300 digits. -/
def port (netloc : List Char) : Option (Option ℕ) :=
  let text := portText (hostinfo netloc)
  if text = [] then some none
  else if text.all Char.isDigit ∧ text.length ≤ 4300 ∧ Nat.ofDigitChars 10 text 0 ≤ 65535 then
    some (some (Nat.ofDigitChars 10 text 0))
  else none

/-- `_check_bracketed_netloc`: brackets stand around an address and nowhere else in the host. -/
def bracketsAllowed (ipLiteral : List Char → Bool) (netloc : List Char) : Bool :=
  if '[' ∈ netloc ∧ ']' ∈ netloc then
    let info := hostinfo netloc
    if '[' ∈ info then
      info.head? = some '[' && (after ']' (after '[' info)).head?.all (· = ':') &&
        ipLiteral (hostName info)
    else ipLiteral (hostName info)
  else '[' ∉ netloc ∧ ']' ∉ netloc

/-- A character that stands for a delimiter in compatibility normalization. -/
def hides (U : Unicode) (c : Char) : Bool :=
  ['/', '?', '#', '@', ':'].any fun d => d ≠ c && d ∈ (U.nfkc (String.singleton c)).toList

/-- The checks of `urlsplit`. -/
def netlocAllowed (U : Unicode) (ipLiteral : List Char → Bool) (netloc : List Char) : Bool :=
  bracketsAllowed ipLiteral netloc && netloc.all fun c => !hides U c

/-- `urlsplit`; absent when it raises.  `ipLiteral` tells the addresses that may stand in
brackets. -/
def urlsplit (U : Unicode) (ipLiteral : List Char → Bool) (url : String) : Option Split :=
  let parts := split U (clean url.toList)
  if netlocAllowed U ipLiteral parts.netloc then some parts else none

/-- `uses_netloc`. -/
def usesNetloc : List String :=
  ["", "ftp", "http", "gopher", "nntp", "telnet", "imap", "wais", "file", "mms", "https", "shttp",
    "snews", "prospero", "rtsp", "rtsps", "rtspu", "rsync", "svn", "svn+ssh", "sftp", "nfs", "git",
    "git+ssh", "ws", "wss"]

/-- `urlunsplit` without a fragment. -/
def urlunsplit (scheme netloc path query : String) : String :=
  let url :=
    if netloc ≠ "" ∨ scheme ≠ "" ∧ scheme ∈ usesNetloc ∨ path.startsWith "//" then
      "//" ++ netloc ++ (if path ≠ "" ∧ ¬ path.startsWith "/" then "/" ++ path else path)
    else path
  (if scheme = "" then "" else scheme ++ ":") ++ url ++ (if query = "" then "" else "?" ++ query)

/-! ## Absolute URLs -/

/-- The characters of an absolute URL: a scheme, a network location and the rest. -/
structure Absolute (url name netloc tail : List Char) : Prop where
  eq : url = name ++ ':' :: '/' :: '/' :: (netloc ++ tail)
  scheme : IsScheme name
  netloc : ∀ c ∈ netloc, endsNetloc c = false
  tail : tail.head?.all endsNetloc = true

theorem not_mem_of_isScheme {name : List Char} (h : IsScheme name) : ':' ∉ name := fun hmem =>
  absurd (List.all_eq_true.mp h.2 _ hmem) (by decide)

/-- A scheme starts with a visible character. -/
theorem exists_head_of_isScheme {name : List Char} (h : IsScheme name) :
    ∃ c rest, name = c :: rest ∧ 0x21 ≤ c.toNat ∧ c.toNat ≤ 0x7E := by
  cases name with
  | nil => exact absurd h.1 (by decide)
  | cons c rest =>
      have hchar : isSchemeChar c = true := List.all_eq_true.mp h.2 c List.mem_cons_self
      have hsafe : isSafe c = true ∨ c = '+' := by
        simp only [isSchemeChar, Bool.or_eq_true, decide_eq_true_eq, List.mem_cons,
          List.not_mem_nil, or_false] at hchar
        rcases hchar with halnum | rfl | rfl | rfl
        · exact Or.inl (by rw [isSafe, halnum, Bool.true_or])
        · exact Or.inr rfl
        · exact Or.inl (by decide)
        · exact Or.inl (by decide)
      rcases hsafe with hsafe | rfl
      · exact ⟨c, rest, rfl, isSafe_graphic hsafe⟩
      · exact ⟨'+', rest, rfl, by decide, by decide⟩

/-- **A URL put together from its parts is split into them.** -/
theorem Absolute.split_eq {url name netloc tail : List Char} (h : Absolute url name netloc tail)
    (U : Unicode) : split U url =
      ⟨U.lower (String.ofList name), netloc, pathOf tail, queryOf tail, after '#' tail⟩ := by
  have hname : url.takeWhile (· ≠ ':') = name := by
    rw [h.eq]
    exact takeWhile_append_cons (ne_of_not_mem (not_mem_of_isScheme h.scheme)) (by decide)
  have hscheme : splitScheme url = (name, '/' :: '/' :: (netloc ++ tail)) := by
    rw [splitScheme, hname, if_pos ⟨by rw [h.eq]; simp, h.scheme⟩, h.eq,
      after_append_cons (not_mem_of_isScheme h.scheme)]
  have hkeep : ∀ c ∈ netloc, (!endsNetloc c) = true := fun c hc => by rw [h.netloc c hc]; rfl
  have hnetloc : splitNetloc ('/' :: '/' :: (netloc ++ tail)) = (netloc, tail) := by
    rw [splitNetloc]
    cases htail : tail with
    | nil =>
        rw [List.append_nil, List.takeWhile_eq_self_iff.mpr hkeep,
          List.dropWhile_eq_nil_iff.mpr hkeep]
    | cons c rest =>
        have hend : endsNetloc c = true := by simpa [htail] using h.tail
        rw [takeWhile_append_cons hkeep (by rw [hend]; rfl),
          dropWhile_append_cons hkeep (by rw [hend]; rfl)]
  rw [split, hscheme]
  show (let (netloc, tail) := splitNetloc ('/' :: '/' :: (netloc ++ tail))
    (⟨U.lower (String.ofList name), netloc, pathOf tail, queryOf tail, after '#' tail⟩ : Split)) = _
  rw [hnetloc]

/-- **Only such a URL has a scheme and a network location.** -/
theorem exists_absolute {U : Unicode} (hlower : U.lower "" = "") {url : List Char}
    (hscheme : (split U url).scheme ≠ "") (hnetloc : (split U url).netloc ≠ []) :
    ∃ name tail, Absolute url name (split U url).netloc tail := by
  have hsplit : split U url = ⟨U.lower (String.ofList (splitScheme url).1),
      (splitNetloc (splitScheme url).2).1, pathOf (splitNetloc (splitScheme url).2).2,
      queryOf (splitNetloc (splitScheme url).2).2, after '#' (splitNetloc (splitScheme url).2).2⟩ :=
    rfl
  rw [hsplit] at hscheme hnetloc
  rw [hsplit]
  show ∃ name tail, Absolute url name (splitNetloc (splitScheme url).2).1 tail
  by_cases hcond : ':' ∈ url ∧ IsScheme (url.takeWhile (· ≠ ':'))
  · have hparts : splitScheme url = (url.takeWhile (· ≠ ':'), after ':' url) := if_pos hcond
    have hurl := takeWhile_append_after hcond.1
    rw [hparts] at hnetloc ⊢
    generalize after ':' url = rest at hnetloc hurl ⊢
    dsimp only at hnetloc ⊢
    unfold splitNetloc at hnetloc ⊢
    split at hnetloc
    · rename_i r
      refine ⟨url.takeWhile (· ≠ ':'), r.dropWhile (!endsNetloc ·), ?_, hcond.2, ?_, ?_⟩
      · rw [List.takeWhile_append_dropWhile]
        exact hurl.symm
      · intro c hc
        simpa using List.mem_takeWhile_imp hc
      · rw [Option.all_eq_true]
        intro c hc
        have hnot := List.head?_dropWhile_not (!endsNetloc ·) r
        rw [hc] at hnot
        simpa using hnot
    · exact absurd rfl hnetloc
  · have hparts : splitScheme url = ([], url) := if_neg hcond
    rw [hparts] at hscheme
    exact absurd hlower hscheme

/-! ## White space at the end -/

theorem rdropWhile_append_cons {α : Type*} {p : α → Bool} {c : α} (hc : p c = false)
    (l rest : List α) : (l ++ c :: rest).rdropWhile p = l ++ c :: rest.rdropWhile p := by
  induction rest using List.reverseRecOn with
  | nil => rw [List.rdropWhile_concat_neg _ _ _ (by rw [hc]; decide), List.rdropWhile_nil]
  | append_singleton rest d ih =>
      rw [← List.cons_append, ← List.append_assoc]
      by_cases hd : p d = true
      · rw [List.rdropWhile_concat_pos _ _ _ hd, List.rdropWhile_concat_pos _ _ _ hd, ih]
      · rw [List.rdropWhile_concat_neg _ _ _ hd, List.rdropWhile_concat_neg _ _ _ hd,
          List.append_assoc, List.cons_append]

theorem filter_rdropWhile {α : Type*} {p q : α → Bool} (h : ∀ c, q c = false → p c = true)
    (l : List α) : (l.rdropWhile p).filter q = (l.filter q).rdropWhile p := by
  induction l using List.reverseRecOn with
  | nil => rfl
  | append_singleton l d ih =>
      rw [List.filter_append, List.filter_singleton]
      by_cases hp : p d = true
      · rw [List.rdropWhile_concat_pos _ _ _ hp, ih]
        cases q d with
        | true => exact (List.rdropWhile_concat_pos _ _ _ hp).symm
        | false => exact congrArg _ (List.append_nil _).symm
      · have hq : q d = true := by
          by_contra hq
          exact hp (h d (Bool.eq_false_iff.mpr hq))
        rw [List.rdropWhile_concat_neg _ _ _ hp, List.filter_append, List.filter_singleton, hq]
        exact (List.rdropWhile_concat_neg _ _ _ hp).symm

/-- **What white space at the end belongs to**: the rest of a URL if there is one, or else its
network location. -/
theorem Absolute.rdropWhile {url name netloc tail : List Char} (h : Absolute url name netloc tail)
    {p : Char → Bool} (hp : ∀ c, endsNetloc c = true → p c = false) :
    Absolute (url.rdropWhile p) name (if tail = [] then netloc.rdropWhile p else netloc)
      (tail.rdropWhile p) := by
  have hslash : p '/' = false := hp '/' (by decide)
  cases htail : tail with
  | nil =>
      have hurl : url = (name ++ [':', '/']) ++ '/' :: netloc := by rw [h.eq, htail]; simp
      rw [if_pos rfl, hurl, rdropWhile_append_cons hslash]
      refine ⟨by simp, h.scheme, fun c hc => h.netloc c ?_, rfl⟩
      exact (List.rdropWhile_prefix p _).subset hc
  | cons c rest =>
      have hend : endsNetloc c = true := by simpa [htail] using h.tail
      have hurl : url = (name ++ ':' :: '/' :: '/' :: netloc) ++ c :: rest := by
        rw [h.eq, htail]
        simp
      have htail' := rdropWhile_append_cons (hp c hend) [] rest
      rw [List.nil_append, List.nil_append] at htail'
      rw [if_neg (List.cons_ne_nil c rest), hurl, rdropWhile_append_cons (hp c hend), htail']
      exact ⟨by simp, h.scheme, h.netloc, by simpa using hend⟩

/-- The path and the query without white space at the end of the URL. -/
theorem pathOf_rdropWhile {p : Char → Bool} (hp : ∀ c, endsNetloc c = true → p c = false)
    (tail : List Char) : pathOf (tail.rdropWhile p) =
      if '#' ∈ tail ∨ '?' ∈ tail then pathOf tail else (pathOf tail).rdropWhile p := by
  by_cases hhash : '#' ∈ tail
  · rw [if_pos (Or.inl hhash), pathOf, pathOf]
    conv_lhs => rw [← takeWhile_append_after hhash, rdropWhile_append_cons (hp '#' (by decide)),
      takeWhile_append_cons (ne_of_not_mem (not_mem_takeWhile '#' tail)) (by simp)]
  · have hsub : ∀ c, c ∉ tail → c ∉ tail.rdropWhile p := fun c hc hmem =>
      hc ((List.rdropWhile_prefix p _).subset hmem)
    rw [pathOf, pathOf, takeWhile_of_not_mem hhash, takeWhile_of_not_mem (hsub '#' hhash)]
    by_cases hquestion : '?' ∈ tail
    · rw [if_pos (Or.inr hquestion)]
      conv_lhs => rw [← takeWhile_append_after hquestion,
        rdropWhile_append_cons (hp '?' (by decide)),
        takeWhile_append_cons (ne_of_not_mem (not_mem_takeWhile '?' tail)) (by simp)]
    · rw [if_neg (not_or.mpr ⟨hhash, hquestion⟩), takeWhile_of_not_mem hquestion,
        takeWhile_of_not_mem (hsub '?' hquestion)]

theorem queryOf_rdropWhile {p : Char → Bool} (hp : ∀ c, endsNetloc c = true → p c = false)
    (tail : List Char) : queryOf (tail.rdropWhile p) =
      if '#' ∈ tail then queryOf tail else (queryOf tail).rdropWhile p := by
  by_cases hhash : '#' ∈ tail
  · rw [if_pos hhash, queryOf, queryOf]
    conv_lhs => rw [← takeWhile_append_after hhash, rdropWhile_append_cons (hp '#' (by decide)),
      takeWhile_append_cons (ne_of_not_mem (not_mem_takeWhile '#' tail)) (by simp)]
  · have hsub : ∀ c, c ∉ tail → c ∉ tail.rdropWhile p := fun c hc hmem =>
      hc ((List.rdropWhile_prefix p _).subset hmem)
    rw [if_neg hhash, queryOf, queryOf, takeWhile_of_not_mem hhash,
      takeWhile_of_not_mem (hsub '#' hhash)]
    by_cases hquestion : '?' ∈ tail
    · conv_lhs => rw [← takeWhile_append_after hquestion,
        rdropWhile_append_cons (hp '?' (by decide)),
        after_append_cons (not_mem_takeWhile '?' tail)]
    · rw [after_of_not_mem hquestion, after_of_not_mem (hsub '?' hquestion), List.rdropWhile_nil]

/-- **White space around a URL**, as `str.strip` takes it away, when what is read of the URL does
not start with white space. -/
theorem clean_strip {p : Char → Bool} (hremoved : ∀ c, isUnsafe c = true → p c = true)
    {url : List Char} {c : Char} {rest : List Char} (hclean : clean url = c :: rest)
    (hc : p c = false) :
    clean ((url.dropWhile p).rdropWhile p) = (clean url).rdropWhile p := by
  have hleads : ∀ x ∈ url.takeWhile isC0OrSpace, isC0OrSpace x = true :=
    fun x hx => List.mem_takeWhile_imp hx
  have hurl : url.takeWhile isC0OrSpace ++ url.dropWhile isC0OrSpace = url :=
    List.takeWhile_append_dropWhile
  rw [clean] at hclean
  cases hread : url.dropWhile isC0OrSpace with
  | nil =>
      rw [hread] at hclean
      exact absurd hclean (List.cons_ne_nil c rest).symm
  | cons d read =>
      have hd : isC0OrSpace d = false := by
        have hnot := List.head?_dropWhile_not isC0OrSpace url
        rw [hread] at hnot
        simpa using hnot
      -- so the first character behind the control characters is the first that is read
      have hkeep : (fun c => !isUnsafe c) d = true := by
        show (!isUnsafe d) = true
        rw [Bool.not_eq_true']
        by_contra hremoved
        rw [Bool.not_eq_false, isUnsafe, decide_eq_true_eq] at hremoved
        simp only [List.mem_cons, List.not_mem_nil, or_false] at hremoved
        rcases hremoved with rfl | rfl | rfl <;> exact absurd hd (by decide)
      rw [hread, List.filter_cons_of_pos (p := fun c => !isUnsafe c) hkeep] at hclean
      obtain ⟨rfl, -⟩ := List.cons.inj hclean
      generalize url.takeWhile isC0OrSpace = lead at hleads hurl
      rw [hread] at hurl
      subst hurl
      have hdrop : ∀ q : Char → Bool, q d = false →
          (lead ++ d :: read).dropWhile q = lead.dropWhile q ++ d :: read := by
        intro q hq
        rw [List.dropWhile_append]
        split_ifs with hempty
        · rw [List.isEmpty_iff.mp hempty, List.dropWhile_cons_of_neg (by rw [hq]; decide)]
          rfl
        · rfl
      have hpart : ∀ x ∈ lead.dropWhile p, isC0OrSpace x = true := fun x hx =>
        hleads x ((List.dropWhile_suffix p).subset hx)
      rw [hdrop p hc, rdropWhile_append_cons hc, clean, List.dropWhile_append_of_pos hpart,
        List.dropWhile_cons_of_neg (by rw [hd]; decide), clean, hread,
        ← filter_rdropWhile fun x hx => hremoved x (by simpa using hx)]
      exact congrArg _ (rdropWhile_append_cons hc [] read).symm

/-- A URL that starts with a scheme and has no characters that are removed is read as it is. -/
theorem clean_eq_self {url : List Char} {c : Char} {rest : List Char} (hurl : url = c :: rest)
    (hc : isC0OrSpace c = false) (h : ∀ d ∈ url, isUnsafe d = false) : clean url = url := by
  rw [clean, hurl, List.dropWhile_cons_of_neg (by rw [hc]; decide), ← hurl,
    List.filter_eq_self.mpr fun d hd => by rw [h d hd]; rfl]

theorem not_isUnsafe_of_mem_clean {url : List Char} {c : Char} (h : c ∈ clean url) :
    isUnsafe c = false := by
  simpa using (List.mem_filter.mp h).2

end Urllib
