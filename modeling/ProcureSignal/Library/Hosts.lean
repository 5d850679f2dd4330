/-
# Hosts and ports

The network location of a URL, taken apart as `SplitResult` does it and written back as a host in
lower case, in brackets where it has colons, with a port.

* `UrlLaws` : what is used of the tables of characters and of the addresses in brackets;
* `exists_portPart` : a network location is user information, a host as it is written and a port;
* `canonicalNetloc` : a host written back;
* `canonicalNetloc_inj` : **hosts and ports can be read back**.
-/
import ProcureSignal.Library.Urlsplit

namespace Urllib

/-! ## Facts about characters -/

/-- The facts about the character database, and about IPv6 addresses and what else may stand in
brackets, that the results on URLs rest on. -/
structure UrlLaws (U : Unicode) (ipLiteral : List Char → Bool) : Prop where
  /-- the visible ASCII characters are no white space -/
  isSpace_graphic : ∀ c, 0x21 ≤ c.toNat → c.toNat ≤ 0x7E → U.isSpace c = false
  isSpace_unsafe : ∀ c, isUnsafe c = true → U.isSpace c = true
  lower_lower : ∀ s, U.lower (U.lower s) = U.lower s
  /-- ASCII letters in lower case -/
  lower_eq_self : ∀ s, (∀ c ∈ s.toList, c.isLower = true) → U.lower s = s
  /-- ASCII characters other than letters are kept, and come from nowhere else -/
  mem_lower : ∀ s c, c.toNat < 0x80 → c.isAlpha = false →
    (c ∈ (U.lower s).toList ↔ c ∈ s.toList)
  /-- the case of a letter does not depend on what is behind white space or a percent sign -/
  lower_boundary : ∀ s c t, c = '%' ∨ U.isSpace c = true →
    U.lower (s ++ String.singleton c ++ t) = U.lower s ++ String.singleton c ++ U.lower t
  /-- a text that ends in no white space does not in lower case either -/
  isSpace_lower : ∀ s c, U.isSpace c = false →
    ∀ d ∈ (U.lower (String.ofList (s ++ [c]))).toList.getLast?, U.isSpace d = false
  hides_ascii : ∀ c, c.toNat < 0x80 → hides U c = false
  hides_lower : ∀ s, ∀ c ∈ (U.lower s).toList, hides U c = true → ∃ d ∈ s.toList, hides U d = true
  ipLiteral_lower : ∀ h, ipLiteral h = true → ipLiteral (U.lower (String.ofList h)).toList = true

namespace UrlLaws

variable {U : Unicode} {ipLiteral : List Char → Bool} (laws : UrlLaws U ipLiteral)

include laws

theorem lower_empty : U.lower "" = "" := laws.lower_eq_self "" (by simp)

theorem isSpace_endsNetloc {c : Char} (h : endsNetloc c = true) : U.isSpace c = false := by
  simp only [endsNetloc, decide_eq_true_eq, List.mem_cons, List.not_mem_nil, or_false] at h
  rcases h with rfl | rfl | rfl <;> exact laws.isSpace_graphic _ (by decide) (by decide)

/-- White space at the end stays there in lower case. -/
theorem lower_concat (s : List Char) {c : Char} (hc : U.isSpace c = true) :
    U.lower (String.ofList (s ++ [c])) =
      String.ofList ((U.lower (String.ofList s)).toList ++ [c]) := by
  have hsplit := laws.lower_boundary (String.ofList s) c "" (Or.inr hc)
  rw [laws.lower_empty, String.append_empty, String.append_empty] at hsplit
  have hsingleton : String.singleton c = String.ofList [c] := rfl
  rw [String.ofList_append, String.ofList_append, String.ofList_toList, ← hsingleton, hsplit]

/-- A character of white space is no part of an escape. -/
theorem unescaped_of_isSpace {c : Char} (hc : U.isSpace c = true) :
    hexValue c = none ∧ ∀ d ∈ ['%', '+', '=', '&', '_', ':', ']', '@', '/'], c ≠ d := by
  have hgraphic : ¬ (0x21 ≤ c.toNat ∧ c.toNat ≤ 0x7E) := fun h => by
    rw [laws.isSpace_graphic c h.1 h.2] at hc
    exact Bool.false_ne_true hc
  refine ⟨?_, ?_⟩
  · unfold hexValue
    simp only [Char.le_def, UInt32.le_iff_toNat_le]
    have hval : c.val.toNat = c.toNat := rfl
    rw [hval]
    split_ifs with h₁ h₂ h₃
    · exact absurd ⟨Nat.le_trans (by decide) h₁.1, Nat.le_trans h₁.2 (by decide)⟩ hgraphic
    · exact absurd ⟨Nat.le_trans (by decide) h₂.1, Nat.le_trans h₂.2 (by decide)⟩ hgraphic
    · exact absurd ⟨Nat.le_trans (by decide) h₃.1, Nat.le_trans h₃.2 (by decide)⟩ hgraphic
    · rfl
  · rintro d hd rfl
    simp only [List.mem_cons, List.not_mem_nil, or_false] at hd
    rcases hd with rfl | rfl | rfl | rfl | rfl | rfl | rfl | rfl | rfl <;>
      exact hgraphic (by decide)

end UrlLaws

theorem isLower_iff {c : Char} : c.isLower = true ↔ 97 ≤ c.toNat ∧ c.toNat ≤ 122 := by
  simp [Char.isLower, UInt32.le_iff_toNat_le]

theorem isUpper_iff {c : Char} : c.isUpper = true ↔ 65 ≤ c.toNat ∧ c.toNat ≤ 90 := by
  simp [Char.isUpper, UInt32.le_iff_toNat_le]

/-- ASCII text is in compatibility normal form. -/
theorem hides_ascii (c : Char) : hides .ascii c = false := by
  have hself : (Unicode.ascii.nfkc (String.singleton c)).toList = [c] :=
    String.toList_singleton c
  rw [hides, hself, List.any_eq_false]
  intro d _
  by_cases hd : d = c <;> simp [hd]

/-- The facts about ASCII text. -/
theorem ascii_urlLaws {ipLiteral : List Char → Bool}
    (h : ∀ host, ipLiteral host = true →
      ipLiteral (Unicode.ascii.lower (String.ofList host)).toList = true) :
    UrlLaws .ascii ipLiteral where
  isSpace_graphic c hlow hhigh := by
    show Unicode.asciiSpace c = false
    simp only [Unicode.asciiSpace, Bool.or_eq_false_iff, Bool.and_eq_false_iff,
      decide_eq_false_iff_not]
    omega
  isSpace_unsafe c hc := by
    simp only [isUnsafe, decide_eq_true_eq, List.mem_cons, List.not_mem_nil, or_false] at hc
    rcases hc with rfl | rfl | rfl <;> decide
  lower_lower := Unicode.ascii_lowerLaws.lower_lower
  lower_eq_self s hs := by
    have hself : s.toList.map Unicode.asciiLower = s.toList := by
      conv_rhs => rw [← List.map_id s.toList]
      refine List.map_congr_left fun c hc => if_neg ?_
      have hlower := hs c hc
      rw [isLower_iff] at hlower
      omega
    show String.ofList (s.toList.map Unicode.asciiLower) = s
    rw [hself, String.ofList_toList]
  mem_lower s c _ halpha := by
    show c ∈ (String.ofList (s.toList.map Unicode.asciiLower)).toList ↔ c ∈ s.toList
    have halpha' : ¬ (65 ≤ c.toNat ∧ c.toNat ≤ 90) ∧ ¬ (97 ≤ c.toNat ∧ c.toNat ≤ 122) := by
      rw [Char.isAlpha, Bool.or_eq_false_iff, ← Bool.not_eq_true, ← Bool.not_eq_true, isLower_iff,
        isUpper_iff] at halpha
      exact halpha
    rw [String.toList_ofList, List.mem_map]
    constructor
    · rintro ⟨d, hd, rfl⟩
      by_cases hupper : 65 ≤ d.toNat ∧ d.toNat ≤ 90
      · have hmoved := Unicode.toNat_asciiLower hupper
        omega
      · rwa [Unicode.asciiLower, if_neg hupper]
    · exact fun hc => ⟨c, hc, if_neg halpha'.1⟩
  lower_boundary s c t hc := by
    have hself : Unicode.asciiLower c = c := by
      refine if_neg fun hupper => ?_
      rcases hc with rfl | hspace
      · exact absurd hupper (by decide)
      · have hspace : Unicode.asciiSpace c = true := hspace
        simp only [Unicode.asciiSpace, Bool.or_eq_true, Bool.and_eq_true,
          decide_eq_true_eq] at hspace
        omega
    show String.ofList ((s ++ String.singleton c ++ t).toList.map Unicode.asciiLower) =
      String.ofList (s.toList.map Unicode.asciiLower) ++ String.singleton c ++
        String.ofList (t.toList.map Unicode.asciiLower)
    rw [← String.toList_inj]
    simp [hself]
  isSpace_lower s c hc d hd := by
    have hlast : (String.ofList ((String.ofList (s ++ [c])).toList.map
        Unicode.asciiLower)).toList.getLast? = some (Unicode.asciiLower c) := by simp
    have hd : d = Unicode.asciiLower c := (Option.some.inj (hlast.symm.trans hd)).symm
    rw [hd]
    exact (Unicode.asciiSpace_asciiLower c).trans hc
  hides_ascii c _ := hides_ascii c
  hides_lower s c _ hc := by
    rw [hides_ascii c] at hc
    exact absurd hc Bool.false_ne_true
  ipLiteral_lower := h

/-! ## The parts of a network location -/

theorem not_mem_hostinfo (netloc : List Char) : '@' ∉ hostinfo netloc := fun h => by
  simpa using List.mem_rtakeWhile_imp h

theorem hostinfo_subset (netloc : List Char) : hostinfo netloc ⊆ netloc :=
  (List.rtakeWhile_suffix _ _).subset

theorem hostinfo_eq_self {netloc : List Char} (h : '@' ∉ netloc) : hostinfo netloc = netloc :=
  List.rtakeWhile_eq_self_iff.mpr (ne_of_not_mem h)

theorem after_subset (c : Char) (cs : List Char) : after c cs ⊆ cs := fun _ h =>
  (List.dropWhile_suffix _).subset (List.mem_of_mem_drop h)

theorem hostName_subset (info : List Char) : hostName info ⊆ info := by
  unfold hostName
  split_ifs
  · exact fun c hc => after_subset '[' info ((List.takeWhile_prefix _).subset hc)
  · exact fun c hc => (List.takeWhile_prefix _).subset hc

/-- A host has not both brackets, and no bracket that closes when it has a colon. -/
theorem hostName_brackets (info : List Char) :
    ¬ ('[' ∈ hostName info ∧ ']' ∈ hostName info) ∧
      (':' ∈ hostName info → '[' ∈ info ∧ ']' ∉ hostName info) := by
  have hclose : '[' ∈ info → ']' ∉ hostName info := by
    intro hopen
    rw [hostName, if_pos hopen]
    exact not_mem_takeWhile ']' _
  refine ⟨fun h => hclose (hostName_subset info h.1) h.2, fun hcolon => ?_⟩
  have hopen : '[' ∈ info := by
    by_contra hopen
    rw [hostName, if_neg hopen] at hcolon
    exact not_mem_takeWhile ':' _ hcolon
  exact ⟨hopen, hclose hopen⟩

/-- **A network location is user information, a host as it is written, and a port** behind a
colon. -/
theorem exists_portPart {ipLiteral : List Char → Bool} {netloc : List Char}
    (h : bracketsAllowed ipLiteral netloc = true) :
    ∃ part, (part = [] ∨ part = ':' :: portText (hostinfo netloc)) ∧
      hostinfo netloc = hostText (hostinfo netloc) ++ part ∧
      (part = [] → portText (hostinfo netloc) = []) := by
  have hsubset := hostinfo_subset netloc
  unfold bracketsAllowed at h
  generalize hostinfo netloc = info at h hsubset ⊢
  by_cases hopen : '[' ∈ info
  · have hclose : '[' ∈ netloc ∧ ']' ∈ netloc := by
      by_contra hnot
      rw [if_neg hnot, decide_eq_true_eq] at h
      exact h.1 (hsubset hopen)
    rw [if_pos hclose] at h
    dsimp only at h
    rw [if_pos hopen, Bool.and_eq_true, Bool.and_eq_true, decide_eq_true_eq] at h
    obtain ⟨⟨hhead, hafter⟩, -⟩ := h
    obtain ⟨rest, rfl⟩ : ∃ rest, info = '[' :: rest := by
      cases info with
      | nil => exact absurd hopen List.not_mem_nil
      | cons c rest => exact ⟨rest, by rw [Option.some.inj hhead]⟩
    have hrest : after '[' ('[' :: rest) = rest := after_append_cons List.not_mem_nil rest
    rw [hostText, hostName, portText, if_pos hopen, if_pos hopen, if_pos hopen, hrest]
    rw [hrest] at hafter
    by_cases hmem : ']' ∈ rest
    · rw [if_pos (List.mem_cons_of_mem _ hmem)]
      have hsplit := takeWhile_append_after hmem
      cases hpart : after ']' rest with
      | nil =>
          rw [hpart] at hsplit
          exact ⟨[], Or.inl rfl, by simpa using hsplit.symm, fun _ => rfl⟩
      | cons c port =>
          rw [hpart] at hafter hsplit
          have hc : c = ':' := by simpa using hafter
          subst hc
          have hport : after ':' (':' :: port) = port := after_append_cons List.not_mem_nil port
          rw [hport]
          refine ⟨':' :: port, Or.inr rfl, ?_, fun hnil => absurd hnil (List.cons_ne_nil _ _)⟩
          simpa using hsplit.symm
    · have hmem' : ']' ∉ '[' :: rest := by simpa using hmem
      rw [if_neg hmem', after_of_not_mem hmem, takeWhile_of_not_mem hmem]
      exact ⟨[], Or.inl rfl, by simp, fun _ => rfl⟩
  · rw [hostText, hostName, portText, if_neg hopen, if_neg hopen, if_neg hopen]
    by_cases hcolon : ':' ∈ info
    · exact ⟨':' :: after ':' info, Or.inr rfl, (takeWhile_append_after hcolon).symm,
        fun hnil => absurd hnil (List.cons_ne_nil _ _)⟩
    · refine ⟨[], Or.inl rfl, ?_, fun _ => after_of_not_mem hcolon⟩
      rw [takeWhile_of_not_mem hcolon, List.append_nil]

/-- Host and port of the network location without its port. -/
theorem hostText_spec (info : List Char) :
    hostName (hostText info) = hostName info ∧ portText (hostText info) = [] ∧
      hostText (hostText info) = hostText info := by
  have hclose : ']' ∉ hostName info ∨ '[' ∉ info := by
    by_cases hopen : '[' ∈ info
    · refine Or.inl ?_
      rw [hostName, if_pos hopen]
      exact not_mem_takeWhile ']' _
    · exact Or.inr hopen
  by_cases hopen : '[' ∈ info
  · have hnot := hclose.resolve_right (not_not.mpr hopen)
    have htext : hostText info = '[' :: (hostName info ++ if ']' ∈ info then [']'] else []) := by
      rw [hostText, if_pos hopen, List.cons_append]
    generalize hostName info = name at hnot htext ⊢
    have hmem : '[' ∈ hostText info := by rw [htext]; exact List.mem_cons_self
    have hafter : after '[' (hostText info) = name ++ if ']' ∈ info then [']'] else [] := by
      rw [htext]
      exact after_append_cons List.not_mem_nil _
    have hname : hostName (hostText info) = name := by
      rw [hostName, if_pos hmem, hafter]
      split_ifs
      · exact takeWhile_append_cons (ne_of_not_mem hnot) (by simp)
      · rw [List.append_nil, takeWhile_of_not_mem hnot]
    refine ⟨hname, ?_, ?_⟩
    · rw [portText, if_pos hmem, hafter]
      split_ifs
      · rw [after_append_cons hnot]
        rfl
      · rw [List.append_nil, after_of_not_mem hnot]
        rfl
    · have hiff : ']' ∈ hostText info ↔ ']' ∈ info := by
        rw [htext]
        split_ifs with hmem'
        · simp [hmem']
        · simp [hmem', hnot]
      rw [hostText, if_pos hmem, hname, htext]
      simp only [htext] at hiff
      simp only [hiff]
      rfl
  · have htext : hostText info = hostName info := if_neg hopen
    have hname : hostName info = info.takeWhile (· ≠ ':') := if_neg hopen
    have hsub : hostName info ⊆ info := hostName_subset info
    rw [htext]
    have hopen' : '[' ∉ hostName info := fun h => hopen (hsub h)
    have hcolon : ':' ∉ hostName info := by
      rw [hname]
      exact not_mem_takeWhile ':' info
    rw [hostText, portText, if_neg hopen', if_neg hopen', after_of_not_mem hcolon]
    have hself : hostName (hostName info) = hostName info := by
      conv_lhs => rw [hostName, if_neg hopen']
      exact takeWhile_of_not_mem hcolon
    exact ⟨hself, rfl, hself⟩

/-- The text of a valid port is of digits. -/
theorem isDigit_of_port {netloc : List Char} {o : Option ℕ} (h : port netloc = some o) :
    ∀ c ∈ portText (hostinfo netloc), c.isDigit = true := by
  unfold port at h
  dsimp only at h
  split_ifs at h with hnil hvalid
  · rw [hnil]
    exact fun c hc => absurd hc List.not_mem_nil
  · exact List.all_eq_true.mp hvalid.1

/-! ## A network location with another host -/

/-- What is in front of the host stays there. -/
theorem front_append {netloc text : List Char} (h : '@' ∉ text) :
    hostinfo (netloc.rdropWhile (· ≠ '@') ++ text) = text ∧
      userinfo (netloc.rdropWhile (· ≠ '@') ++ text) = userinfo netloc := by
  have hfront : (netloc.rdropWhile (· ≠ '@') ++ text).rdropWhile (· ≠ '@') =
      netloc.rdropWhile (· ≠ '@') := by
    rw [List.rdropWhile, List.reverse_append,
      List.dropWhile_append_of_pos fun c hc => ne_of_not_mem h c (List.mem_reverse.mp hc)]
    exact List.rdropWhile_idempotent _ _
  have hmem : '@' ∈ netloc.rdropWhile (· ≠ '@') ++ text ↔ '@' ∈ netloc := by
    have hnetloc : netloc.rdropWhile (· ≠ '@') ++ hostinfo netloc = netloc :=
      List.rdropWhile_append_rtakeWhile
    conv_rhs => rw [← hnetloc, List.mem_append]
    rw [List.mem_append]
    simp [h, not_mem_hostinfo]
  refine ⟨?_, ?_⟩
  · have happend := List.rdropWhile_append_rtakeWhile (p := fun c => decide (c ≠ '@'))
      (l := netloc.rdropWhile (· ≠ '@') ++ text)
    rw [hfront] at happend
    exact List.append_cancel_left happend
  · rw [userinfo, userinfo, hfront]
    simp only [hmem]

/-- What is in front of the host ends where user information does. -/
theorem front_rdropWhile {p : Char → Bool} (hp : p '@' = false) (netloc text : List Char) :
    (netloc.rdropWhile (· ≠ '@') ++ text).rdropWhile p =
      netloc.rdropWhile (· ≠ '@') ++ text.rdropWhile p := by
  by_cases hnil : netloc.rdropWhile (· ≠ '@') = []
  · rw [hnil, List.nil_append, List.nil_append]
  · obtain ⟨front, hfront⟩ : ∃ front, netloc.rdropWhile (· ≠ '@') = front ++ ['@'] := by
      have hlast := List.rdropWhile_last_not (fun c => decide (c ≠ '@')) netloc hnil
      refine ⟨(netloc.rdropWhile (· ≠ '@')).dropLast, ?_⟩
      conv_lhs => rw [← List.dropLast_concat_getLast hnil]
      simp only [decide_eq_true_eq, not_not] at hlast
      rw [hlast]
    rw [hfront, List.append_assoc, List.append_assoc]
    exact rdropWhile_append_cons hp front text

/-- The network location without its port. -/
def withoutPort (netloc : List Char) : List Char :=
  netloc.rdropWhile (· ≠ '@') ++ hostText (hostinfo netloc)

theorem not_mem_hostText (netloc : List Char) : '@' ∉ hostText (hostinfo netloc) := by
  have hname : '@' ∉ hostName (hostinfo netloc) := fun h =>
    not_mem_hostinfo netloc (hostName_subset _ h)
  unfold hostText
  split_ifs <;> simp [hname]

theorem port_withoutPort (netloc : List Char) : port (withoutPort netloc) = some none := by
  rw [port, withoutPort, (front_append (not_mem_hostText netloc)).1, (hostText_spec _).2.1]
  rfl

/-- Without its port, a network location has the same characters but for those of the port. -/
theorem mem_withoutPort {ipLiteral : List Char → Bool} {netloc : List Char}
    (h : bracketsAllowed ipLiteral netloc = true) {o : Option ℕ} (hport : port netloc = some o) :
    withoutPort netloc ⊆ netloc ∧ ∀ c, c ≠ ':' → c.isDigit = false →
      (c ∈ hostText (hostinfo netloc) ↔ c ∈ hostinfo netloc) ∧
        (c ∈ withoutPort netloc ↔ c ∈ netloc) := by
  obtain ⟨part, hpart, hinfo, -⟩ := exists_portPart h
  have hnetloc : netloc.rdropWhile (· ≠ '@') ++ hostinfo netloc = netloc :=
    List.rdropWhile_append_rtakeWhile
  refine ⟨fun c hc => ?_, fun c hcolon hdigit => ?_⟩
  · rw [← hnetloc, hinfo, ← List.append_assoc]
    exact List.mem_append_left _ hc
  · have hnot : c ∉ part := by
      rcases hpart with rfl | rfl
      · exact List.not_mem_nil
      · intro hmem
        rcases List.mem_cons.mp hmem with rfl | hmem
        · exact hcolon rfl
        · rw [isDigit_of_port hport c hmem] at hdigit
          exact Bool.false_ne_true hdigit.symm
    have hiff : c ∈ hostText (hostinfo netloc) ↔ c ∈ hostinfo netloc := by
      conv_rhs => rw [hinfo, List.mem_append]
      simp [hnot]
    refine ⟨hiff, ?_⟩
    conv_rhs => rw [← hnetloc, List.mem_append, ← hiff]
    rw [withoutPort, List.mem_append]

/-- A network location is accepted without its port when it is with it. -/
theorem bracketsAllowed_withoutPort {ipLiteral : List Char → Bool} {netloc : List Char}
    (h : bracketsAllowed ipLiteral netloc = true) {o : Option ℕ} (hport : port netloc = some o) :
    bracketsAllowed ipLiteral (withoutPort netloc) = true := by
  obtain ⟨hopenText, hopen⟩ := (mem_withoutPort h hport).2 '[' (by decide) (by decide)
  have hclose := ((mem_withoutPort h hport).2 ']' (by decide) (by decide)).2
  have hinfo : hostinfo (withoutPort netloc) = hostText (hostinfo netloc) :=
    (front_append (not_mem_hostText netloc)).1
  unfold bracketsAllowed at h ⊢
  rw [hinfo]
  simp only [hopen, hclose, hopenText, (hostText_spec _).1] at h ⊢
  by_cases hboth : '[' ∈ netloc ∧ ']' ∈ netloc
  · rw [if_pos hboth] at h ⊢
    by_cases hmem : '[' ∈ hostinfo netloc
    · rw [if_pos hmem, Bool.and_eq_true] at h
      rw [if_pos hmem, h.2, Bool.and_true]
      have htext : hostText (hostinfo netloc) = '[' :: (hostName (hostinfo netloc) ++
          if ']' ∈ hostinfo netloc then [']'] else []) := by
        rw [hostText, if_pos hmem, List.cons_append]
      have hnot : ']' ∉ hostName (hostinfo netloc) := by
        rw [hostName, if_pos hmem]
        exact not_mem_takeWhile ']' _
      have hafter : after '[' (hostText (hostinfo netloc)) = hostName (hostinfo netloc) ++
          if ']' ∈ hostinfo netloc then [']'] else [] := by
        rw [htext]
        exact after_append_cons (List.not_mem_nil) _
      have hnil : after ']' (after '[' (hostText (hostinfo netloc))) = [] := by
        rw [hafter]
        split_ifs
        · exact after_append_cons hnot []
        · rw [List.append_nil, after_of_not_mem hnot]
      rw [hnil, htext]
      rfl
    · rwa [if_neg hmem] at h ⊢
  · rwa [if_neg hboth] at h ⊢

/-- The host as it is written, but for what is at its end, names the host but for what is at its
end. -/
theorem hostName_rdropWhile {p : Char → Bool} (hp : p '[' = false) {info : List Char}
    (h : ¬ ('[' ∈ info ∧ ']' ∈ info)) :
    hostName ((hostText info).rdropWhile p) = (hostName info).rdropWhile p := by
  have hsub : ∀ {c : Char} {l : List Char}, c ∉ l → c ∉ l.rdropWhile p := fun hc hmem =>
    hc ((List.rdropWhile_prefix p _).subset hmem)
  by_cases hopen : '[' ∈ info
  · have hclose : ']' ∉ hostName info := by
      rw [hostName, if_pos hopen]
      exact not_mem_takeWhile ']' _
    have htext : (hostText info).rdropWhile p = '[' :: (hostName info).rdropWhile p := by
      rw [hostText, if_pos hopen, if_neg fun hmem => h ⟨hopen, hmem⟩, List.append_nil]
      exact rdropWhile_append_cons hp [] _
    have hafter : after '[' ((hostText info).rdropWhile p) = (hostName info).rdropWhile p := by
      rw [htext]
      exact after_append_cons List.not_mem_nil _
    have hmem : '[' ∈ (hostText info).rdropWhile p := by
      rw [htext]
      exact List.mem_cons_self
    conv_lhs => rw [hostName, if_pos hmem, hafter]
    exact takeWhile_of_not_mem (hsub hclose)
  · have hname : hostName info = info.takeWhile (· ≠ ':') := if_neg hopen
    have hopen' : '[' ∉ hostName info := fun hmem => hopen (hostName_subset info hmem)
    have hcolon : ':' ∉ hostName info := by
      rw [hname]
      exact not_mem_takeWhile ':' info
    rw [hostText, if_neg hopen]
    conv_lhs => rw [hostName, if_neg (hsub hopen')]
    exact takeWhile_of_not_mem (hsub hcolon)

/-! ## Writing a network location -/

/-- A host in brackets where it has colons. -/
def bracketed (host : List Char) : List Char := if ':' ∈ host then '[' :: host ++ [']'] else host

/-- A port behind its colon. -/
def portSuffix : Option ℕ → List Char
  | some n => ':' :: Nat.toDigits 10 n
  | none => []

/-- The network location of a host and a port. -/
def canonicalNetloc (host : List Char) (port : Option ℕ) : List Char :=
  bracketed host ++ portSuffix port

/-- A host as it is read: not both brackets, and no closing one with a colon. -/
def IsHost (host : List Char) : Prop :=
  '@' ∉ host ∧ ¬ ('[' ∈ host ∧ ']' ∈ host) ∧ (':' ∈ host → ']' ∉ host)

theorem mem_portSuffix {c : Char} {port : Option ℕ} (h : c ∈ portSuffix port) :
    c = ':' ∨ c.isDigit = true := by
  cases port with
  | none => exact absurd h List.not_mem_nil
  | some n =>
      exact (List.mem_cons.mp h).imp_right (Nat.isDigit_of_mem_toDigits (by decide) (by decide))

theorem not_mem_portSuffix {c : Char} (hcolon : c ≠ ':') (hdigit : c.isDigit = false)
    (port : Option ℕ) : c ∉ portSuffix port := by
  intro h
  rcases mem_portSuffix h with h | h
  · exact hcolon h
  · rw [hdigit] at h
    exact Bool.false_ne_true h

theorem portSuffix_injective : Function.Injective portSuffix := by
  intro p q h
  cases p with
  | none =>
      cases q with
      | none => rfl
      | some n => exact absurd h.symm (List.cons_ne_nil _ _)
  | some m =>
      cases q with
      | none => exact absurd h (List.cons_ne_nil _ _)
      | some n =>
          have hdigits := congrArg (Nat.ofDigitChars 10 · 0) (List.cons.inj h).2
          simpa using hdigits

theorem takeWhile_append_suffix {c : Char} {host : List Char} (h : c ∉ host) {suffix : List Char}
    (hsuffix : suffix.head?.all (· = c) = true) :
    (host ++ suffix).takeWhile (· ≠ c) = host ∧ after c (host ++ suffix) = suffix.drop 1 := by
  cases suffix with
  | nil =>
      rw [List.append_nil]
      exact ⟨takeWhile_of_not_mem h, after_of_not_mem h⟩
  | cons d suffix =>
      have hd : d = c := by simpa using hsuffix
      subst hd
      exact ⟨takeWhile_append_cons (ne_of_not_mem h) (by simp), after_append_cons h suffix⟩

theorem head_portSuffix (port : Option ℕ) : (portSuffix port).head?.all (· = ':') = true := by
  cases port <;> simp [portSuffix]

/-- **Hosts and ports can be read back.** -/
theorem canonicalNetloc_inj {host host' : List Char} (h : IsHost host) (h' : IsHost host')
    {port port' : Option ℕ} (heq : canonicalNetloc host port = canonicalNetloc host' port') :
    host = host' ∧ port = port' := by
  have hbrackets : ∀ p, '[' ∉ portSuffix p ∧ ']' ∉ portSuffix p := fun p =>
    ⟨not_mem_portSuffix (by decide) (by decide) p, not_mem_portSuffix (by decide) (by decide) p⟩
  -- both brackets are there exactly when the host has a colon
  have hboth : ∀ {host port}, IsHost host →
      ('[' ∈ canonicalNetloc host port ∧ ']' ∈ canonicalNetloc host port ↔ ':' ∈ host) := by
    intro host port hhost
    unfold canonicalNetloc bracketed
    split_ifs with hcolon
    · simp [hcolon]
    · simp only [List.mem_append, hbrackets port, or_false, hcolon, iff_false]
      exact hhost.2.1
  have hcolons : ':' ∈ host ↔ ':' ∈ host' := by rw [← hboth h, ← hboth h', heq]
  unfold canonicalNetloc bracketed at heq
  by_cases hcolon : ':' ∈ host
  · rw [if_pos hcolon, if_pos (hcolons.mp hcolon)] at heq
    have hread : ∀ {host : List Char} (p : Option ℕ), ']' ∉ host →
        ('[' :: host ++ [']'] ++ portSuffix p).takeWhile (· ≠ ']') = '[' :: host ∧
          after ']' ('[' :: host ++ [']'] ++ portSuffix p) = portSuffix p := by
      intro host p hclose
      have hclose' : ']' ∉ '[' :: host := by simpa using hclose
      rw [List.append_assoc, List.singleton_append]
      exact ⟨takeWhile_append_cons (ne_of_not_mem hclose') (by simp), after_append_cons hclose' _⟩
    obtain ⟨hname, hport⟩ := hread port (h.2.2 hcolon)
    obtain ⟨hname', hport'⟩ := hread port' (h'.2.2 (hcolons.mp hcolon))
    rw [heq, hname'] at hname
    rw [heq, hport'] at hport
    exact ⟨(List.cons.inj hname).2.symm, (portSuffix_injective hport).symm⟩
  · have hcolon' : ':' ∉ host' := fun hmem => hcolon (hcolons.mpr hmem)
    rw [if_neg hcolon, if_neg hcolon'] at heq
    have hhost := (takeWhile_append_suffix hcolon (head_portSuffix port)).1
    rw [heq, (takeWhile_append_suffix hcolon' (head_portSuffix port')).1] at hhost
    subst hhost
    exact ⟨rfl, portSuffix_injective (List.append_cancel_left heq)⟩

/-! ## Reading it again -/

section Reading

variable {host : List Char} {p : Option ℕ}

theorem hostinfo_canonicalNetloc (h : IsHost host) :
    hostinfo (canonicalNetloc host p) = canonicalNetloc host p := by
  refine hostinfo_eq_self fun hmem => ?_
  have hsuffix : '@' ∉ portSuffix p := not_mem_portSuffix (by decide) (by decide) p
  unfold canonicalNetloc bracketed at hmem
  split_ifs at hmem <;> simp [h.1, hsuffix] at hmem

/-- A host with a colon, or without a bracket, is read as it was written, and so is its port. -/
theorem hostName_canonicalNetloc (h : IsHost host)
    (hplain : ':' ∈ host ∨ '[' ∉ host ∧ ']' ∉ host) :
    hostName (canonicalNetloc host p) = host ∧
      portText (canonicalNetloc host p) = (portSuffix p).drop 1 := by
  by_cases hcolon : ':' ∈ host
  · have hnetloc : canonicalNetloc host p = '[' :: (host ++ ']' :: portSuffix p) := by
      rw [canonicalNetloc, bracketed, if_pos hcolon]
      simp
    have hopen : '[' ∈ canonicalNetloc host p := by rw [hnetloc]; exact List.mem_cons_self
    have hafter : after '[' (canonicalNetloc host p) = host ++ ']' :: portSuffix p := by
      rw [hnetloc]
      exact after_append_cons List.not_mem_nil _
    have hclose := h.2.2 hcolon
    refine ⟨?_, ?_⟩
    · rw [hostName, if_pos hopen, hafter, takeWhile_append_cons (ne_of_not_mem hclose) (by simp)]
    · rw [portText, if_pos hopen, hafter, after_append_cons hclose]
      exact (takeWhile_append_suffix List.not_mem_nil (head_portSuffix p)).2
  · have hplain := hplain.resolve_left hcolon
    have hopen : '[' ∉ canonicalNetloc host p := by
      have hsuffix : '[' ∉ portSuffix p := not_mem_portSuffix (by decide) (by decide) p
      rw [canonicalNetloc, bracketed, if_neg hcolon, List.mem_append, not_or]
      exact ⟨hplain.1, hsuffix⟩
    rw [hostName, portText, if_neg hopen, if_neg hopen, canonicalNetloc, bracketed, if_neg hcolon]
    exact takeWhile_append_suffix hcolon (head_portSuffix p)

theorem port_canonicalNetloc (h : IsHost host) (hplain : ':' ∈ host ∨ '[' ∉ host ∧ ']' ∉ host)
    (hport : ∀ n, p = some n → n ≤ 65535) : port (canonicalNetloc host p) = some p := by
  have htext := (hostName_canonicalNetloc (p := p) h hplain).2
  rw [port, hostinfo_canonicalNetloc h, htext]
  cases p with
  | none => rfl
  | some n =>
      have hle := hport n rfl
      have hne : Nat.toDigits 10 n ≠ [] := List.ne_nil_of_length_pos Nat.length_toDigits_pos
      have hdigits : (Nat.toDigits 10 n).all Char.isDigit = true :=
        List.all_eq_true.mpr fun c hc => Nat.isDigit_of_mem_toDigits (by decide) (by decide) hc
      have hlength : (Nat.toDigits 10 n).length ≤ 5 :=
        (Nat.length_toDigits_le_iff (by decide) (by decide)).mpr (by omega)
      have hvalue : Nat.ofDigitChars 10 (Nat.toDigits 10 n) 0 = n := Nat.ofDigitChars_ten_toDigits
      have hdrop : (portSuffix (some n)).drop 1 = Nat.toDigits 10 n := rfl
      rw [hdrop, if_neg hne, hvalue, if_pos ⟨hdigits, by omega, hle⟩]

/-- It is accepted when its address is. -/
theorem bracketsAllowed_canonicalNetloc {ipLiteral : List Char → Bool} (h : IsHost host)
    (hplain : ':' ∈ host ∨ '[' ∉ host ∧ ']' ∉ host) (hip : ':' ∈ host → ipLiteral host = true) :
    bracketsAllowed ipLiteral (canonicalNetloc host p) = true := by
  have hsuffix : '[' ∉ portSuffix p ∧ ']' ∉ portSuffix p :=
    ⟨not_mem_portSuffix (by decide) (by decide) p, not_mem_portSuffix (by decide) (by decide) p⟩
  by_cases hcolon : ':' ∈ host
  · have hnetloc : canonicalNetloc host p = '[' :: (host ++ ']' :: portSuffix p) := by
      rw [canonicalNetloc, bracketed, if_pos hcolon]
      simp
    have hmem : '[' ∈ canonicalNetloc host p ∧ ']' ∈ canonicalNetloc host p := by
      rw [hnetloc]
      simp
    have hafter : after ']' (after '[' (canonicalNetloc host p)) = portSuffix p := by
      rw [hnetloc]
      have hopen : after '[' ('[' :: (host ++ ']' :: portSuffix p)) = host ++ ']' :: portSuffix p :=
        after_append_cons List.not_mem_nil _
      rw [hopen, after_append_cons (h.2.2 hcolon)]
    rw [bracketsAllowed, if_pos hmem, hostinfo_canonicalNetloc h]
    dsimp only
    rw [if_pos hmem.1, hafter, (hostName_canonicalNetloc h hplain).1, hip hcolon, Bool.and_true,
      head_portSuffix, Bool.and_true, hnetloc]
    rfl
  · have hplain := hplain.resolve_left hcolon
    have hnot : '[' ∉ canonicalNetloc host p ∧ ']' ∉ canonicalNetloc host p := by
      rw [canonicalNetloc, bracketed, if_neg hcolon]
      simp [hplain, hsuffix]
    rw [bracketsAllowed, if_neg fun hmem => hnot.1 hmem.1]
    exact decide_eq_true hnot

/-- A host with one bracket is rejected when it is written without the other. -/
theorem not_bracketsAllowed_canonicalNetloc (ipLiteral : List Char → Bool) (h : IsHost host)
    (hcolon : ':' ∉ host) (hbracket : '[' ∈ host ∨ ']' ∈ host) :
    bracketsAllowed ipLiteral (canonicalNetloc host p) = false := by
  have hsuffix : '[' ∉ portSuffix p ∧ ']' ∉ portSuffix p :=
    ⟨not_mem_portSuffix (by decide) (by decide) p, not_mem_portSuffix (by decide) (by decide) p⟩
  have hopen : '[' ∈ canonicalNetloc host p ↔ '[' ∈ host := by
    rw [canonicalNetloc, bracketed, if_neg hcolon]
    simp [hsuffix]
  have hclose : ']' ∈ canonicalNetloc host p ↔ ']' ∈ host := by
    rw [canonicalNetloc, bracketed, if_neg hcolon]
    simp [hsuffix]
  rw [bracketsAllowed, if_neg fun hmem => h.2.1 ⟨hopen.mp hmem.1, hclose.mp hmem.2⟩,
    decide_eq_false_iff_not, hopen, hclose]
  tauto

end Reading

/-! ## The host of a network location -/

section Host

variable {U : Unicode} {ipLiteral : List Char → Bool} (laws : UrlLaws U ipLiteral)
  {netloc : List Char}

theorem ipLiteral_hostName (h : bracketsAllowed ipLiteral netloc = true)
    (hcolon : ':' ∈ hostName (hostinfo netloc)) :
    ipLiteral (hostName (hostinfo netloc)) = true := by
  have hopen := ((hostName_brackets _).2 hcolon).1
  unfold bracketsAllowed at h
  split_ifs at h with hboth
  · dsimp only at h
    rw [if_pos hopen, Bool.and_eq_true] at h
    exact h.2
  · rw [decide_eq_true_eq] at h
    exact absurd (hostinfo_subset netloc hopen) h.1

theorem port_le {n : ℕ} (h : port netloc = some (some n)) : n ≤ 65535 := by
  unfold port at h
  dsimp only at h
  split_ifs at h with hnil hvalid
  · exact absurd (Option.some.inj h) (by simp)
  · rw [← Option.some.inj (Option.some.inj h)]
    exact hvalid.2.2

include laws

/-- The host in lower case, zone included. -/
theorem lower_hostname : U.lower ((hostname U netloc).getD "") =
    U.lower (String.ofList (hostName (hostinfo netloc))) := by
  unfold hostname
  dsimp only
  generalize hostName (hostinfo netloc) = name
  split_ifs with hnil
  · rw [hnil]
    rfl
  · rw [Option.getD_some]
    by_cases hpercent : '%' ∈ name
    · have hsplit := takeWhile_append_after hpercent
      have hdrop : name.dropWhile (· ≠ '%') = '%' :: after '%' name := by
        have happend := List.takeWhile_append_dropWhile (p := (· ≠ '%')) (l := name)
        exact List.append_cancel_left (happend.trans hsplit.symm)
      have hname : String.ofList name = String.ofList (name.takeWhile (· ≠ '%')) ++
          String.singleton '%' ++ String.ofList (after '%' name) := by
        conv_lhs => rw [← hsplit]
        rw [String.singleton_eq_ofList, ← String.ofList_append, ← String.ofList_append,
          List.append_assoc, List.singleton_append]
      have hzone : String.ofList ('%' :: after '%' name) =
          String.singleton '%' ++ String.ofList (after '%' name) := by
        rw [String.singleton_eq_ofList, ← String.ofList_append, List.singleton_append]
      rw [hdrop, hzone, hname, ← String.append_assoc, laws.lower_boundary _ _ _ (Or.inl rfl),
        laws.lower_boundary _ _ _ (Or.inl rfl), laws.lower_lower]
    · have hdrop : name.dropWhile (· ≠ '%') = [] :=
        List.dropWhile_eq_nil_iff.mpr (ne_of_not_mem hpercent)
      have hempty : String.ofList ([] : List Char) = "" := rfl
      rw [hdrop, takeWhile_of_not_mem hpercent, hempty, String.append_empty, laws.lower_lower]

/-- The characters of a host in lower case. -/
theorem isHost_lower (netloc : List Char) :
    IsHost (U.lower (String.ofList (hostName (hostinfo netloc)))).toList := by
  have hmem : ∀ c, c.toNat < 0x80 → c.isAlpha = false →
      (c ∈ (U.lower (String.ofList (hostName (hostinfo netloc)))).toList ↔
        c ∈ hostName (hostinfo netloc)) := by
    intro c hlt halpha
    rw [laws.mem_lower _ c hlt halpha, String.toList_ofList]
  obtain ⟨hboth, hcolon⟩ := hostName_brackets (hostinfo netloc)
  have hat : '@' ∉ hostName (hostinfo netloc) := fun h =>
    not_mem_hostinfo netloc (hostName_subset _ h)
  rw [IsHost, hmem '@' (by decide) (by decide), hmem '[' (by decide) (by decide),
    hmem ']' (by decide) (by decide), hmem ':' (by decide) (by decide)]
  exact ⟨hat, hboth, fun h => (hcolon h).2⟩

/-- The characters of the network location that is written. -/
theorem hides_canonicalNetloc (h : netloc.all (fun c => !hides U c) = true) (p : Option ℕ) :
    (canonicalNetloc (U.lower (String.ofList (hostName (hostinfo netloc)))).toList p).all
      (fun c => !hides U c) = true := by
  rw [List.all_eq_true]
  intro c hc
  rw [Bool.not_eq_true']
  have hhost : ∀ c ∈ (U.lower (String.ofList (hostName (hostinfo netloc)))).toList,
      hides U c = false := by
    intro c hc
    by_contra hhides
    obtain ⟨d, hd, hhides⟩ := laws.hides_lower _ c hc (Bool.not_eq_false _ ▸ hhides)
    rw [String.toList_ofList] at hd
    have hnot := List.all_eq_true.mp h d (hostinfo_subset netloc (hostName_subset _ hd))
    rw [hhides] at hnot
    exact absurd hnot (by decide)
  have hsuffix : ∀ c ∈ portSuffix p, hides U c = false := by
    intro c hc
    refine laws.hides_ascii c ?_
    rcases mem_portSuffix hc with rfl | hdigit
    · decide
    · have hle : c.toNat ≤ 57 := (Char.isDigit_iff_toNat.mp hdigit).2
      omega
  rcases List.mem_append.mp hc with hc | hc
  · unfold bracketed at hc
    split_ifs at hc
    · rcases List.mem_append.mp hc with hc | hc
      · rcases List.mem_cons.mp hc with rfl | hc
        · exact laws.hides_ascii _ (by decide)
        · exact hhost c hc
      · rw [List.mem_singleton.mp hc]
        exact laws.hides_ascii _ (by decide)
    · exact hhost c hc
  · exact hsuffix c hc

end Host

end Urllib
