/-
# Lower case, character by character

`str.lower` maps every character to a text of its own, but for the sigma, whose form at the end of
a word is another.  With one form of the small sigma, lower case is a map of characters to texts
that keeps the ASCII characters other than letters, and a URL is split before or after it alike.

* `CaseLaws` : what is used of lower case;
* `Keeps` : the maps of characters that keep delimiters;
* `Keeps.clean_flatMap`, `Keeps.bracketsAllowed_flatMap` : **they commute with the parsing**;
* `rawNetloc_lower` : the network location of a URL in lower case;
* `netlocAllowed_lower` : it is accepted when the one of the URL is.
-/
import ProcureSignal.Library.Hosts

namespace Urllib

/-! ## Maps that keep delimiters -/

/-- A map of characters to texts that keeps the ASCII characters other than letters, and makes none
of them. -/
structure Keeps (g : Char → List Char) : Prop where
  ne_nil : ∀ c, g c ≠ []
  self : ∀ c, c.toNat < 0x80 → c.isAlpha = false → g c = [c]
  only : ∀ c, ∀ d ∈ g c, d.toNat < 0x80 → d.isAlpha = false → d = c

/-- A set of characters that a map keeps. -/
structure Respects (g : Char → List Char) (p : Char → Bool) : Prop where
  on : ∀ c, p c = true → g c = [c]
  off : ∀ c, p c = false → ∀ d ∈ g c, p d = false

theorem Keeps.respects {g : Char → List Char} (h : Keeps g) {p : Char → Bool}
    (hp : ∀ c, p c = true → c.toNat < 0x80 ∧ c.isAlpha = false) : Respects g p where
  on c hc := h.self c (hp c hc).1 (hp c hc).2
  off c hc d hd := by
    by_contra hdelimiter
    rw [Bool.not_eq_false] at hdelimiter
    have heq := h.only c d hd (hp d hdelimiter).1 (hp d hdelimiter).2
    rw [heq, hc] at hdelimiter
    exact Bool.false_ne_true hdelimiter

namespace Respects

variable {g : Char → List Char} {p : Char → Bool} (h : Respects g p)

include h

theorem takeWhile_not (l : List Char) :
    (l.flatMap g).takeWhile (!p ·) = (l.takeWhile (!p ·)).flatMap g := by
  induction l with
  | nil => rfl
  | cons c l ih =>
      rw [List.flatMap_cons]
      by_cases hc : p c = true
      · rw [h.on c hc, List.takeWhile_cons_of_neg (by simp [hc]), List.singleton_append,
          List.takeWhile_cons_of_neg (by simp [hc])]
        rfl
      · rw [Bool.not_eq_true] at hc
        rw [List.takeWhile_append_of_pos (fun d hd => by rw [h.off c hc d hd]; rfl), ih,
          List.takeWhile_cons_of_pos (by rw [hc]; rfl), List.flatMap_cons]

theorem filter_not (l : List Char) :
    (l.flatMap g).filter (!p ·) = (l.filter (!p ·)).flatMap g := by
  induction l with
  | nil => rfl
  | cons c l ih =>
      rw [List.flatMap_cons, List.filter_append, ih]
      by_cases hc : p c = true
      · rw [h.on c hc, List.filter_cons_of_neg (by simp [hc]),
          List.filter_cons_of_neg (by simp [hc])]
        rfl
      · rw [Bool.not_eq_true] at hc
        rw [List.filter_eq_self.mpr (fun d hd => by rw [h.off c hc d hd]; rfl),
          List.filter_cons_of_pos (by rw [hc]; rfl), List.flatMap_cons]

theorem dropWhile_flatMap (hne : ∀ c, g c ≠ []) (l : List Char) :
    (l.flatMap g).dropWhile p = (l.dropWhile p).flatMap g := by
  induction l with
  | nil => rfl
  | cons c l ih =>
      by_cases hc : p c = true
      · rw [List.flatMap_cons, h.on c hc, List.singleton_append, List.dropWhile_cons_of_pos hc, ih,
          List.dropWhile_cons_of_pos hc]
      · obtain ⟨d, rest, hd⟩ := List.exists_cons_of_ne_nil (hne c)
        have hd_off : p d = false := by
          rw [Bool.not_eq_true] at hc
          exact h.off c hc d (by rw [hd]; exact List.mem_cons_self)
        rw [List.dropWhile_cons_of_neg hc, List.flatMap_cons, hd, List.cons_append,
          List.dropWhile_cons_of_neg (by rw [hd_off]; decide)]

theorem mem_flatMap {d : Char} (hd : p d = true) (l : List Char) : d ∈ l.flatMap g ↔ d ∈ l := by
  rw [List.mem_flatMap]
  constructor
  · rintro ⟨c, hc, hdc⟩
    by_cases hpc : p c = true
    · rw [h.on c hpc, List.mem_singleton] at hdc
      exact hdc ▸ hc
    · rw [Bool.not_eq_true] at hpc
      have hoff := h.off c hpc d hdc
      rw [hd] at hoff
      exact absurd hoff (by decide)
  · exact fun hmem => ⟨d, hmem, by rw [h.on d hd]; exact List.mem_singleton_self d⟩

theorem rtakeWhile_not (l : List Char) :
    (l.flatMap g).rtakeWhile (!p ·) = (l.rtakeWhile (!p ·)).flatMap g := by
  have hreverse : Respects (fun c => (g c).reverse) p :=
    ⟨fun c hc => by rw [h.on c hc]; rfl, fun c hc d hd => h.off c hc d (List.mem_reverse.mp hd)⟩
  rw [List.rtakeWhile, List.rtakeWhile, List.reverse_flatMap]
  show ((l.reverse.flatMap fun c => (g c).reverse).takeWhile (!p ·)).reverse = _
  rw [hreverse.takeWhile_not, List.reverse_flatMap]
  refine congrArg (fun f => List.flatMap f _) (funext fun c => ?_)
  exact List.reverse_reverse (g c)

theorem head_flatMap (hne : ∀ c, g c ≠ []) (l : List Char) :
    (l.flatMap g).head?.map p = l.head?.map p := by
  cases l with
  | nil => rfl
  | cons c l =>
      obtain ⟨d, rest, hd⟩ := List.exists_cons_of_ne_nil (hne c)
      rw [List.flatMap_cons, hd, List.cons_append, List.head?_cons, List.head?_cons,
        Option.map_some, Option.map_some]
      by_cases hc : p c = true
      · rw [h.on c hc] at hd
        rw [(List.cons.inj hd).1]
      · rw [Bool.not_eq_true] at hc
        rw [hc, h.off c hc d (by rw [hd]; exact List.mem_cons_self)]

end Respects

section Parsing

variable {g : Char → List Char} (h : Keeps g)

include h

theorem Keeps.respects_eq {d : Char} (hd : d.toNat < 0x80) (halpha : d.isAlpha = false) :
    Respects g (decide <| · = d) :=
  h.respects fun c hc => by
    rw [of_decide_eq_true hc]
    exact ⟨hd, halpha⟩

theorem Keeps.respects_endsNetloc : Respects g endsNetloc :=
  h.respects fun c hc => by
    rw [endsNetloc, decide_eq_true_eq] at hc
    simp only [List.mem_cons, List.not_mem_nil, or_false] at hc
    rcases hc with rfl | rfl | rfl <;> decide

/-- The characters that are read. -/
theorem Keeps.clean_flatMap (l : List Char) : clean (l.flatMap g) = (clean l).flatMap g := by
  have hcontrol : Respects g isC0OrSpace := h.respects fun c hc => by
    have hle : c.toNat ≤ 0x20 := of_decide_eq_true hc
    refine ⟨by omega, ?_⟩
    rw [Char.isAlpha, Bool.or_eq_false_iff, ← Bool.not_eq_true, ← Bool.not_eq_true, isLower_iff,
      isUpper_iff]
    omega
  have hunsafe : Respects g isUnsafe := h.respects fun c hc => by
    rw [isUnsafe, decide_eq_true_eq] at hc
    simp only [List.mem_cons, List.not_mem_nil, or_false] at hc
    rcases hc with rfl | rfl | rfl <;> decide
  rw [clean, clean, hcontrol.dropWhile_flatMap h.ne_nil, hunsafe.filter_not]

theorem Keeps.takeWhile_ne {d : Char} (hd : d.toNat < 0x80) (halpha : d.isAlpha = false)
    (l : List Char) : (l.flatMap g).takeWhile (· ≠ d) = (l.takeWhile (· ≠ d)).flatMap g := by
  simpa only [decide_not] using (h.respects_eq hd halpha).takeWhile_not l

theorem Keeps.after_flatMap {d : Char} (hd : d.toNat < 0x80) (halpha : d.isAlpha = false)
    (l : List Char) : after d (l.flatMap g) = (after d l).flatMap g := by
  have hrespects := h.respects_eq hd halpha
  by_cases hmem : d ∈ l
  · have hself : g d = [d] := h.self d hd halpha
    have hbefore : d ∉ (l.takeWhile (· ≠ d)).flatMap g := by
      rw [hrespects.mem_flatMap (decide_eq_true rfl)]
      exact fun hin => by simpa using List.mem_takeWhile_imp hin
    conv_lhs => rw [← takeWhile_append_after hmem]
    rw [List.flatMap_append, List.flatMap_cons, hself, List.singleton_append,
      after_append_cons hbefore]
  · have hmem' : d ∉ l.flatMap g := by rwa [hrespects.mem_flatMap (decide_eq_true rfl)]
    rw [after_of_not_mem hmem, after_of_not_mem hmem']
    rfl

theorem Keeps.hostinfo_flatMap (l : List Char) :
    hostinfo (l.flatMap g) = (hostinfo l).flatMap g := by
  simpa only [hostinfo, decide_not] using
    (h.respects_eq (d := '@') (by decide) (by decide)).rtakeWhile_not l

theorem Keeps.mem_flatMap {d : Char} (hd : d.toNat < 0x80) (halpha : d.isAlpha = false)
    (l : List Char) : d ∈ l.flatMap g ↔ d ∈ l :=
  (h.respects_eq hd halpha).mem_flatMap (decide_eq_true rfl) l

theorem Keeps.hostName_flatMap (l : List Char) :
    hostName (l.flatMap g) = (hostName l).flatMap g := by
  rw [hostName, hostName]
  by_cases hopen : '[' ∈ l
  · rw [if_pos ((h.mem_flatMap (by decide) (by decide) l).mpr hopen), if_pos hopen,
      h.after_flatMap (by decide) (by decide), h.takeWhile_ne (by decide) (by decide)]
  · rw [if_neg (mt (h.mem_flatMap (by decide) (by decide) l).mp hopen), if_neg hopen,
      h.takeWhile_ne (by decide) (by decide)]

/-- **Brackets** are checked on the text before the map, with the addresses after it. -/
theorem Keeps.bracketsAllowed_flatMap (ipLiteral : List Char → Bool) (l : List Char) :
    bracketsAllowed ipLiteral (l.flatMap g) =
      bracketsAllowed (fun host => ipLiteral (host.flatMap g)) l := by
  have hmem : ∀ d, d.toNat < 0x80 → d.isAlpha = false → ∀ l : List Char,
      (d ∈ l.flatMap g) = (d ∈ l) := fun d hd halpha l => propext (h.mem_flatMap hd halpha l)
  have hhead : ∀ l : List Char,
      decide ((l.flatMap g).head? = some '[') = decide (l.head? = some '[') := by
    intro l
    have hmap := (h.respects_eq (d := '[') (by decide) (by decide)).head_flatMap h.ne_nil l
    have hany : ∀ o : Option Char, decide (o = some '[') =
        (o.map fun c => decide (c = '[')).getD false := by
      intro o
      cases o <;> simp
    rw [hany, hany, hmap]
  have hcolon : ∀ l : List Char,
      (l.flatMap g).head?.all (fun c => decide (c = ':')) =
        l.head?.all fun c => decide (c = ':') := by
    intro l
    have hmap := (h.respects_eq (d := ':') (by decide) (by decide)).head_flatMap h.ne_nil l
    have hall : ∀ o : Option Char, (o.all fun c => decide (c = ':')) =
        (o.map fun c => decide (c = ':')).getD true := by
      intro o
      cases o <;> rfl
    rw [hall, hall, hmap]
  simp only [bracketsAllowed, h.hostinfo_flatMap, h.hostName_flatMap, hhead, hcolon,
    h.after_flatMap (d := '[') (by decide) (by decide),
    h.after_flatMap (d := ']') (by decide) (by decide),
    hmem '[' (by decide) (by decide), hmem ']' (by decide) (by decide)]

end Parsing

/-- More addresses, more network locations. -/
theorem bracketsAllowed_mono {ipLiteral ipLiteral' : List Char → Bool}
    (himp : ∀ host, ipLiteral host = true → ipLiteral' host = true) {netloc : List Char}
    (h : bracketsAllowed ipLiteral netloc = true) : bracketsAllowed ipLiteral' netloc = true := by
  unfold bracketsAllowed at h ⊢
  split_ifs at h ⊢ with hboth
  · dsimp only at h ⊢
    split_ifs at h ⊢ with hopen
    · rw [Bool.and_eq_true] at h ⊢
      exact ⟨h.1, himp _ h.2⟩
    · exact himp _ h
  · exact h

/-! ## Lower case -/

/-- A sigma at the end of a word as one in front of a letter. -/
def unfinal (c : Char) : Char := if c = 'ς' then 'σ' else c

theorem unfinal_of_ascii {c : Char} (h : c.toNat < 0x80) : unfinal c = c := by
  rw [unfinal, if_neg]
  rintro rfl
  exact absurd h (by decide)

/-- An ASCII character is no sigma. -/
theorem eq_of_unfinal {c d : Char} (h : unfinal c = d) (hd : d.toNat < 0x80) : c = d := by
  unfold unfinal at h
  split_ifs at h
  · rw [← h] at hd
    exact absurd hd (by decide)
  · exact h

/-- An ASCII text has no sigma. -/
theorem map_unfinal_eq_iff {l text : List Char} (h : ∀ c ∈ text, c.toNat < 0x80) :
    l.map unfinal = text ↔ l = text := by
  constructor
  · intro hmap
    rw [← hmap]
    conv_lhs => rw [← List.map_id l]
    refine List.map_congr_left fun c hc => eq_of_unfinal rfl (h _ ?_)
    rw [← hmap]
    exact List.mem_map_of_mem hc
  · rintro rfl
    conv_rhs => rw [← List.map_id l]
    exact List.map_congr_left fun c hc => unfinal_of_ascii (h c hc)

theorem keeps_unfinal : Keeps fun c => [unfinal c] where
  ne_nil c := List.cons_ne_nil _ _
  self c hc _ := by rw [unfinal_of_ascii hc]
  only c d hd hlt _ := (eq_of_unfinal (List.mem_singleton.mp hd).symm hlt).symm

/-- The facts about URLs, with lower case character by character up to the form of a sigma. -/
structure CaseLaws (U : Unicode) (ipLiteral : List Char → Bool) : Prop extends
    UrlLaws U ipLiteral where
  lower_append : ∀ s t, (U.lower (s ++ t)).toList.map unfinal =
    (U.lower s).toList.map unfinal ++ (U.lower t).toList.map unfinal
  lower_ascii : ∀ c, c.toNat < 0x80 →
    U.lower (String.singleton c) = String.singleton (Unicode.asciiLower c)
  lower_ne_empty : ∀ c, U.lower (String.singleton c) ≠ ""
  /-- a sigma stands for no delimiter -/
  hides_unfinal : ∀ c, hides U (unfinal c) = hides U c
  /-- an address may have a sigma in its zone only -/
  ipLiteral_unfinal : ∀ host, ipLiteral (host.map unfinal) = ipLiteral host

/-- The lower case of one character. -/
def lowerChar (U : Unicode) (c : Char) : List Char :=
  (U.lower (String.singleton c)).toList.map unfinal

/-- A letter in lower case is a letter. -/
theorem isAlpha_asciiLower {c : Char} (h : c.isAlpha = true) :
    (Unicode.asciiLower c).isAlpha = true := by
  by_cases hupper : 65 ≤ c.toNat ∧ c.toNat ≤ 90
  · have hlower : (Unicode.asciiLower c).isLower = true := by
      rw [isLower_iff, Unicode.toNat_asciiLower hupper]
      omega
    rw [Char.isAlpha, hlower, Bool.or_true]
  · rwa [Unicode.asciiLower, if_neg hupper]

theorem ascii_of_isSchemeChar {c : Char} (h : isSchemeChar c = true) : c.toNat < 0x80 := by
  have hnine : '9'.toNat = 57 := rfl
  simp only [isSchemeChar, Char.isAlphanum, Char.isAlpha, Bool.or_eq_true, isLower_iff,
    isUpper_iff, Char.isDigit_iff_toNat, decide_eq_true_eq, List.mem_cons, List.not_mem_nil,
    or_false] at h
  rcases h with ((hupper | hlower) | hdigit) | rfl | rfl | rfl
  · omega
  · omega
  · omega
  all_goals decide

theorem isSchemeChar_asciiLower {c : Char} (h : isSchemeChar c = true) :
    isSchemeChar (Unicode.asciiLower c) = true := by
  by_cases hupper : 65 ≤ c.toNat ∧ c.toNat ≤ 90
  · have halpha : c.isAlpha = true := by
      rw [Char.isAlpha, isUpper_iff.mpr hupper, Bool.true_or]
    rw [isSchemeChar, Char.isAlphanum, isAlpha_asciiLower halpha, Bool.true_or, Bool.true_or]
  · rwa [Unicode.asciiLower, if_neg hupper]

section Lower

variable {U : Unicode} {ipLiteral : List Char → Bool} (laws : CaseLaws U ipLiteral)

include laws

/-- Lower case is a map of characters. -/
theorem map_lower (l : List Char) :
    (U.lower (String.ofList l)).toList.map unfinal = l.flatMap (lowerChar U) := by
  induction l with
  | nil =>
      have hempty : U.lower (String.ofList []) = "" := laws.toUrlLaws.lower_empty
      rw [hempty]
      rfl
  | cons c l ih =>
      have hcons : String.ofList (c :: l) = String.singleton c ++ String.ofList l := by
        rw [String.singleton_eq_ofList, ← String.ofList_append, List.singleton_append]
      rw [hcons, laws.lower_append, ih, List.flatMap_cons, lowerChar]

theorem lowerChar_ascii {c : Char} (hc : c.toNat < 0x80) :
    lowerChar U c = [Unicode.asciiLower c] := by
  have hlower : (Unicode.asciiLower c).toNat < 0x80 := by
    by_cases hupper : 65 ≤ c.toNat ∧ c.toNat ≤ 90
    · rw [Unicode.toNat_asciiLower hupper]
      omega
    · rwa [Unicode.asciiLower, if_neg hupper]
  rw [lowerChar, laws.lower_ascii c hc, String.toList_singleton, List.map_singleton,
    unfinal_of_ascii hlower]

theorem keeps_lowerChar : Keeps (lowerChar U) where
  ne_nil c hnil := by
    rw [lowerChar, List.map_eq_nil_iff] at hnil
    exact laws.lower_ne_empty c (String.toList_inj.mp hnil)
  self c hc halpha := by
    rw [Char.isAlpha, Bool.or_eq_false_iff, ← Bool.not_eq_true, ← Bool.not_eq_true, isLower_iff,
      isUpper_iff] at halpha
    rw [lowerChar_ascii laws hc, Unicode.asciiLower, if_neg halpha.1]
  only c d hd hlt halpha := by
    obtain ⟨d', hd', heq⟩ := List.mem_map.mp hd
    obtain rfl := eq_of_unfinal heq hlt
    have hmem := (laws.mem_lower (String.singleton c) d' hlt halpha).mp hd'
    rwa [String.toList_singleton, List.mem_singleton] at hmem

/-- A scheme in lower case is a scheme. -/
theorem isScheme_lower {name : List Char} (h : IsScheme name) :
    IsScheme (name.flatMap (lowerChar U)) := by
  have hmap : name.flatMap (lowerChar U) = name.map Unicode.asciiLower := by
    rw [List.map_eq_flatMap]
    refine List.flatMap_congr fun c hc => lowerChar_ascii laws ?_
    exact ascii_of_isSchemeChar (List.all_eq_true.mp h.2 c hc)
  rw [hmap, IsScheme]
  constructor
  · have hhead := h.1
    cases name with
    | nil => exact hhead
    | cons c name => exact isAlpha_asciiLower hhead
  · rw [List.all_map]
    exact List.all_eq_true.mpr fun c hc => isSchemeChar_asciiLower (List.all_eq_true.mp h.2 c hc)

/-- A URL in lower case has the lower case of its parts. -/
theorem Absolute.flatMap_lower {url name netloc tail : List Char}
    (h : Absolute url name netloc tail) :
    Absolute (url.flatMap (lowerChar U)) (name.flatMap (lowerChar U))
      (netloc.flatMap (lowerChar U)) (tail.flatMap (lowerChar U)) := by
  have hkeeps := keeps_lowerChar laws
  refine ⟨?_, ?_, fun c hc => ?_, ?_⟩
  · rw [h.eq, List.flatMap_append, List.flatMap_cons, List.flatMap_cons, List.flatMap_cons,
      List.flatMap_append, hkeeps.self ':' (by decide) (by decide),
      hkeeps.self '/' (by decide) (by decide)]
    rfl
  · exact isScheme_lower laws h.scheme
  · have hoff := hkeeps.respects_endsNetloc.off
    obtain ⟨d, hd, hc⟩ := List.mem_flatMap.mp hc
    exact hoff d (h.netloc d hd) c hc
  · have hhead := hkeeps.respects_endsNetloc.head_flatMap hkeeps.ne_nil tail
    have hall : ∀ o : Option Char, o.all endsNetloc = (o.map endsNetloc).getD true := by
      intro o
      cases o <;> rfl
    rw [hall, hhead, ← hall]
    exact h.tail

end Lower

/-- The network location of a URL as it stands. -/
def rawNetloc (url : List Char) : List Char := (splitNetloc (splitScheme (clean url)).2).1

theorem netloc_split (U : Unicode) (url : List Char) :
    (split U (clean url)).netloc = rawNetloc url := rfl

theorem Absolute.rawNetloc_eq {url name netloc tail : List Char}
    (h : Absolute (clean url) name netloc tail) : rawNetloc url = netloc := by
  rw [← netloc_split .ascii, h.split_eq]

/-- A URL that starts with no letter and no slash has no network location. -/
theorem rawNetloc_of_head {url : List Char} {c : Char} {rest : List Char}
    (h : clean url = c :: rest) (hc : 0x7F ≤ c.toNat) : rawNetloc url = [] := by
  have hne : ∀ d : Char, d.toNat < 0x7F → c ≠ d := by
    rintro d hd rfl
    omega
  have halpha : c.isAlpha = false := by
    rw [Char.isAlpha, Bool.or_eq_false_iff, ← Bool.not_eq_true, ← Bool.not_eq_true, isLower_iff,
      isUpper_iff]
    omega
  have hscheme : ¬ IsScheme ((c :: rest).takeWhile (· ≠ ':')) := fun hscheme => by
    have hhead := hscheme.1
    rw [List.takeWhile_cons_of_pos (by simpa using hne ':' (by decide)), List.head?_cons,
      Option.any_some, halpha] at hhead
    exact Bool.false_ne_true hhead
  rw [rawNetloc, h, splitScheme, if_neg fun hboth => hscheme hboth.2]
  unfold splitNetloc
  split
  · rename_i heq
    exact absurd (List.cons.inj heq).1 (hne '/' (by decide))
  · rfl

/-- A text that is a URL up to the form of its sigmas is one. -/
theorem Absolute.of_map_unfinal {url name netloc tail : List Char}
    (h : Absolute (url.map unfinal) name netloc tail) :
    ∃ netloc' tail', Absolute url name netloc' tail' ∧ netloc'.map unfinal = netloc := by
  obtain ⟨name', rest₁, hurl, hname, h₁⟩ := List.map_eq_append_iff.mp h.eq
  obtain ⟨c₁, rest₂, rfl, hc₁, h₂⟩ := List.map_eq_cons_iff.mp h₁
  obtain ⟨c₂, rest₃, rfl, hc₂, h₃⟩ := List.map_eq_cons_iff.mp h₂
  obtain ⟨c₃, rest₄, rfl, hc₃, h₄⟩ := List.map_eq_cons_iff.mp h₃
  obtain ⟨netloc', tail', rfl, hnetloc, htail⟩ := List.map_eq_append_iff.mp h₄
  obtain rfl := eq_of_unfinal hc₁ (by decide)
  obtain rfl := eq_of_unfinal hc₂ (by decide)
  obtain rfl := eq_of_unfinal hc₃ (by decide)
  have hname_eq : name' = name := (map_unfinal_eq_iff fun c hc =>
    ascii_of_isSchemeChar (List.all_eq_true.mp h.scheme.2 c hc)).mp hname
  subst hname_eq
  have hends : ∀ c, endsNetloc (unfinal c) = endsNetloc c := by
    intro c
    have hrespects := keeps_unfinal.respects_endsNetloc
    by_cases hc : endsNetloc c = true
    · rw [(List.cons.inj (hrespects.on c hc)).1]
    · rw [Bool.not_eq_true] at hc
      rw [hc, hrespects.off c hc _ (List.mem_singleton_self _)]
  refine ⟨netloc', tail', ⟨hurl, h.scheme, fun c hc => ?_, ?_⟩, hnetloc⟩
  · rw [← hends]
    exact h.netloc _ (by rw [← hnetloc]; exact List.mem_map_of_mem hc)
  · have htail_ends := h.tail
    rw [← htail, List.head?_map] at htail_ends
    cases tail' with
    | nil => rfl
    | cons c tail' => exact (hends c).symm.trans htail_ends

theorem clean_map_unfinal (l : List Char) : (clean l).map unfinal = clean (l.map unfinal) := by
  rw [List.map_eq_flatMap, List.map_eq_flatMap, keeps_unfinal.clean_flatMap]

section Networks

variable {U : Unicode} {ipLiteral : List Char → Bool} (laws : CaseLaws U ipLiteral)

include laws

theorem clean_lower (url : String) : (clean (U.lower url).toList).map unfinal =
    (clean url.toList).flatMap (lowerChar U) := by
  have hmap := map_lower laws url.toList
  rw [String.ofList_toList] at hmap
  rw [clean_map_unfinal, hmap, (keeps_lowerChar laws).clean_flatMap]

/-- **The network location of a URL in lower case.** -/
theorem rawNetloc_lower {url : String} {name netloc tail : List Char}
    (h : Absolute (clean url.toList) name netloc tail) :
    (rawNetloc (U.lower url).toList).map unfinal = netloc.flatMap (lowerChar U) := by
  have habsolute := h.flatMap_lower laws
  rw [← clean_lower laws] at habsolute
  obtain ⟨netloc', tail', habsolute', hnetloc⟩ := habsolute.of_map_unfinal
  rw [habsolute'.rawNetloc_eq, hnetloc]

/-- A URL behind white space that is not stripped has none, in lower case or not. -/
theorem rawNetloc_lower_of_space {url : String} {c : Char} {rest : List Char}
    (h : clean url.toList = c :: rest) (hc : U.isSpace c = true) (hhigh : 0x7F ≤ c.toNat) :
    rawNetloc (U.lower url).toList = [] := by
  have hself : lowerChar U c = [unfinal c] := by
    have hboundary := laws.lower_boundary "" c "" (Or.inr hc)
    rw [laws.toUrlLaws.lower_empty, String.append_empty, String.empty_append] at hboundary
    rw [lowerChar, hboundary]
    simp
  have hclean := clean_lower laws url
  rw [h, List.flatMap_cons, hself, List.singleton_append] at hclean
  obtain ⟨d, rest', hd, hdc, -⟩ := List.map_eq_cons_iff.mp hclean
  refine rawNetloc_of_head hd ?_
  by_contra hlow
  have hunfinal : unfinal c = d := by rw [← hdc, unfinal_of_ascii (by omega)]
  have hcd : c = d := eq_of_unfinal hunfinal (by omega)
  rw [← hcd] at hlow
  omega

/-- Its brackets are those of the URL, around addresses in lower case. -/
theorem bracketsAllowed_lower {netloc netloc' : List Char}
    (h : netloc'.map unfinal = netloc.flatMap (lowerChar U)) :
    bracketsAllowed ipLiteral netloc' =
      bracketsAllowed (fun host => ipLiteral (host.flatMap (lowerChar U))) netloc := by
  rw [← (keeps_lowerChar laws).bracketsAllowed_flatMap, ← h, List.map_eq_flatMap,
    keeps_unfinal.bracketsAllowed_flatMap]
  refine congrArg (bracketsAllowed · netloc') (funext fun host => ?_)
  rw [← List.map_eq_flatMap, laws.ipLiteral_unfinal]

/-- **It is accepted** when the network location of the URL is. -/
theorem netlocAllowed_lower {netloc netloc' : List Char}
    (h : netloc'.map unfinal = netloc.flatMap (lowerChar U))
    (hallowed : netlocAllowed U ipLiteral netloc = true) :
    netlocAllowed U ipLiteral netloc' = true := by
  rw [netlocAllowed, Bool.and_eq_true] at hallowed ⊢
  constructor
  · rw [bracketsAllowed_lower laws h]
    refine bracketsAllowed_mono (fun host hhost => ?_) hallowed.1
    rw [← map_lower laws, laws.ipLiteral_unfinal]
    exact laws.ipLiteral_lower host hhost
  · rw [List.all_eq_true]
    intro c hc
    have hmem : unfinal c ∈ netloc.flatMap (lowerChar U) := by
      rw [← h]
      exact List.mem_map_of_mem hc
    obtain ⟨d, hd, hcd⟩ := List.mem_flatMap.mp hmem
    obtain ⟨c', hc', heq⟩ := List.mem_map.mp hcd
    have hsame : hides U c' = hides U c := by
      rw [← laws.hides_unfinal c', heq, laws.hides_unfinal]
    rw [← hsame, Bool.not_eq_true']
    by_contra hhides
    rw [Bool.not_eq_false] at hhides
    obtain ⟨e, he, hehides⟩ := laws.hides_lower _ c' hc' hhides
    rw [String.toList_singleton, List.mem_singleton] at he
    have hnot := List.all_eq_true.mp hallowed.2 d hd
    rw [← he, hehides] at hnot
    exact absurd hnot (by decide)

end Networks

/-! ## ASCII text -/

/-- The facts about ASCII text. -/
theorem ascii_caseLaws {ipLiteral : List Char → Bool} (hurl : UrlLaws .ascii ipLiteral)
    (hsigma : ∀ host, ipLiteral (host.map unfinal) = ipLiteral host) :
    CaseLaws .ascii ipLiteral where
  toUrlLaws := hurl
  lower_append s t := by
    rw [← List.map_append]
    refine congrArg (List.map unfinal) ?_
    show (String.ofList ((s ++ t).toList.map Unicode.asciiLower)).toList =
      (String.ofList (s.toList.map Unicode.asciiLower)).toList ++
        (String.ofList (t.toList.map Unicode.asciiLower)).toList
    simp
  lower_ascii c _ := by
    show String.ofList ((String.singleton c).toList.map Unicode.asciiLower) = _
    rw [String.toList_singleton, List.map_singleton, String.singleton_eq_ofList]
  lower_ne_empty c h := by
    have hlist : (String.ofList ((String.singleton c).toList.map Unicode.asciiLower)).toList =
        "".toList := congrArg String.toList h
    simp at hlist
  hides_unfinal c := by rw [hides_ascii, hides_ascii]
  ipLiteral_unfinal := hsigma

end Urllib
