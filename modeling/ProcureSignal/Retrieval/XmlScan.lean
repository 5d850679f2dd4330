/-
# Declarations in exports

`_check_xml` of `retrieval/providers/sanctions.py`.  The file is searched for declarations in chunks
of 64 KiB, with the last 32 bytes in front of each.  White space in a declaration can be longer.

* `checkXml` : the checks;
* `search_iff`, `scan_iff` : the declarations of a file, and those that are seen;
* `raises_iff` : **for which files the search in chunks is enough**;
* `seen_of_short` : a declaration of at most 32 bytes is seen wherever it stands;
* `widened` : one with forty spaces.
-/
import ProcureSignal.Library.Windows

namespace ProcureSignal.Retrieval.Sanctions

open Windows

/-! ## Bytes -/

/-- The bytes of ASCII text. -/
def bytesOf (s : String) : List UInt8 := s.toList.map fun c => UInt8.ofNat c.toNat

/-- `\s` of a bytes pattern. -/
def isSpaceByte (b : UInt8) : Bool := b = 32 || (9 ≤ b && b ≤ 13)

/-- `\w` of a bytes pattern. -/
def isWordByte (b : UInt8) : Bool :=
  (48 ≤ b && b ≤ 57) || (65 ≤ b && b ≤ 90) || (97 ≤ b && b ≤ 122) || b = 95

/-- A letter in lower case. -/
def lowerByte (b : UInt8) : UInt8 := if 65 ≤ b && b ≤ 90 then b + 32 else b

/-- A quotation mark. -/
def isQuote (b : UInt8) : Bool := b = 39 || b = 34

/-! ## The patterns -/

/-- The words behind `<!`. -/
def keywords : List (List UInt8) := [bytesOf "doctype", bytesOf "entity"]

/-- `_DECLARATION` matches at the start: `<!`, white space, a keyword and the end of a word. -/
def declarationAt (content : List UInt8) : Bool :=
  (bytesOf "<!").isPrefixOf content &&
    let name := (content.drop 2).dropWhile isSpaceByte
    keywords.any fun keyword =>
      decide ((name.take keyword.length).map lowerByte = keyword) &&
        (name.drop keyword.length).head?.all (!isWordByte ·)

/-- `_DECLARATION.search`. -/
def search (content : List UInt8) : Bool := content.tails.any declarationAt

/-- What `_ENCODING` captures when it matches at the start. -/
def encodingAt (content : List UInt8) : Option (List UInt8) :=
  let rest := (content.drop 8).dropWhile isSpaceByte
  let value := (rest.drop 1).dropWhile isSpaceByte
  let name := (value.drop 1).takeWhile (!isQuote ·)
  if (content.take 8).map lowerByte = bytesOf "encoding" ∧ rest.head? = some 61 ∧
      value.head?.any isQuote ∧ name ≠ [] ∧ (value.drop (1 + name.length)).head?.any isQuote then
    some name
  else none

/-- `_ENCODING.search`. -/
def encoding (content : List UInt8) : Option (List UInt8) := content.tails.findSome? encodingAt

/-- `_UNSUPPORTED_BOMS`. -/
def unsupportedBoms : List (List UInt8) :=
  [[0xFF, 0xFE], [0xFE, 0xFF], [0x00, 0x00, 0xFE, 0xFF], [0xFF, 0xFE, 0x00, 0x00]]

/-- The checks of the first 256 bytes. -/
def headAccepted (content : List UInt8) : Bool :=
  let head := content.take 256
  !unsupportedBoms.any (·.isPrefixOf head) && !decide (0 ∈ head) &&
    (encoding head).all fun name =>
      name.map lowerByte ∈ [bytesOf "utf-8", bytesOf "us-ascii", bytesOf "ascii"]

/-- `_check_xml`, which raises `UnsafeSanctionsXML`. -/
def checkXml (content : List UInt8) : Except String Unit :=
  if !headAccepted content then .error "unsupported XML BOM or encoding"
  else if scan 32 search [] (chunks (64 * 1024) content) then
    .error "DTD and entity declarations are forbidden"
  else .ok ()

/-! ## Where declarations stand -/

/-- The bytes of `content` from `i` to `j` are `<!`, white space and a keyword. -/
def Declares (content : List UInt8) (i j : ℕ) : Prop :=
  ∃ before spaces keyword after, content = before ++ (bytesOf "<!" ++ (spaces ++ (keyword ++ after))) ∧
    before.length = i ∧ j = i + 2 + spaces.length + keyword.length ∧
    (∀ b ∈ spaces, isSpaceByte b = true) ∧ keyword.map lowerByte ∈ keywords

/-- A word ends at `j`. -/
def EndsWord (content : List UInt8) (j : ℕ) : Prop := content[j]?.all (!isWordByte ·) = true

/-- A declaration that a window holds; a word that goes on behind the window ends with it. -/
def Seen (content : List UInt8) : Prop :=
  ∃ k i j, k * (64 * 1024) < content.length ∧ k * (64 * 1024) - 32 ≤ i ∧
    j ≤ (k + 1) * (64 * 1024) ∧ Declares content i j ∧
    (j = (k + 1) * (64 * 1024) ∨ EndsWord content j)

/-- A keyword does not start with white space. -/
theorem exists_head_of_keyword {keyword : List UInt8} (h : keyword.map lowerByte ∈ keywords) :
    ∃ b rest, keyword = b :: rest ∧ isSpaceByte b = false := by
  cases keyword with
  | nil => exact absurd h (by decide)
  | cons b rest =>
      refine ⟨b, rest, rfl, ?_⟩
      have hfirst : lowerByte b = 100 ∨ lowerByte b = 101 := by
        simp only [keywords, List.mem_cons, List.not_mem_nil, or_false, List.map_cons] at h
        exact h.imp (fun h => (List.cons.inj h).1) fun h => (List.cons.inj h).1
      have hspace : ∀ b : UInt8, isSpaceByte b = true → lowerByte b ≠ 100 ∧ lowerByte b ≠ 101 := by
        intro b hb
        simp only [isSpaceByte, Bool.or_eq_true, Bool.and_eq_true, decide_eq_true_eq] at hb
        unfold lowerByte
        grind
      by_contra hb
      rw [Bool.not_eq_false] at hb
      exact hfirst.elim (hspace b hb).1 (hspace b hb).2

/-- The byte behind a declaration. -/
theorem getElem?_behind (spaces keyword after : List UInt8) :
    (bytesOf "<!" ++ (spaces ++ (keyword ++ after)))[2 + spaces.length + keyword.length]? =
      after.head? := by
  have hlength : (bytesOf "<!").length = 2 := by decide
  rw [List.getElem?_append_right (by omega), List.getElem?_append_right (by omega),
    List.getElem?_append_right (by omega), List.head?_eq_getElem?]
  congr 1
  omega

/-- **A match of the pattern** is a declaration behind which a word ends. -/
theorem declarationAt_iff {content : List UInt8} :
    declarationAt content = true ↔ ∃ j, Declares content 0 j ∧ EndsWord content j := by
  rw [declarationAt, Bool.and_eq_true, List.isPrefixOf_iff_prefix, List.any_eq_true]
  constructor
  · rintro ⟨⟨rest, rfl⟩, keyword, hkeyword, hname⟩
    rw [Bool.and_eq_true, decide_eq_true_eq] at hname
    have hdrop : (bytesOf "<!" ++ rest).drop 2 = rest := List.drop_left' (by decide)
    rw [hdrop] at hname
    have hlength : ((rest.dropWhile isSpaceByte).take keyword.length).length = keyword.length := by
      have hmap := congrArg List.length hname.1
      rwa [List.length_map] at hmap
    have hrest : rest = rest.takeWhile isSpaceByte ++ ((rest.dropWhile isSpaceByte).take keyword.length ++
        (rest.dropWhile isSpaceByte).drop keyword.length) := by
      rw [List.take_append_drop, List.takeWhile_append_dropWhile]
    refine ⟨_, ⟨[], rest.takeWhile isSpaceByte, (rest.dropWhile isSpaceByte).take keyword.length,
      (rest.dropWhile isSpaceByte).drop keyword.length, ?_, rfl, rfl, ?_, ?_⟩, ?_⟩
    · rw [List.nil_append, ← hrest]
    · exact fun b hb => List.mem_takeWhile_imp hb
    · rw [hname.1]
      exact hkeyword
    · have hbehind := getElem?_behind (rest.takeWhile isSpaceByte)
        ((rest.dropWhile isSpaceByte).take keyword.length)
        ((rest.dropWhile isSpaceByte).drop keyword.length)
      rw [← hrest] at hbehind
      rw [EndsWord, Nat.zero_add, hbehind]
      exact hname.2
  · rintro ⟨j, ⟨before, spaces, keyword, after, rfl, hbefore, rfl, hspaces, hkeyword⟩, hend⟩
    obtain rfl := List.length_eq_zero_iff.mp hbefore
    obtain ⟨b, tail, hhead, hb⟩ := exists_head_of_keyword hkeyword
    rw [Nat.zero_add, List.nil_append, EndsWord, getElem?_behind] at hend
    have hdrop : (bytesOf "<!" ++ (spaces ++ (keyword ++ after))).drop 2 =
        spaces ++ (keyword ++ after) := List.drop_left' rfl
    have hname : (spaces ++ (keyword ++ after)).dropWhile isSpaceByte = keyword ++ after := by
      rw [List.dropWhile_append_of_pos hspaces, hhead, List.cons_append,
        List.dropWhile_cons_of_neg (by rw [hb]; decide)]
    refine ⟨⟨spaces ++ (keyword ++ after), rfl⟩, keyword.map lowerByte, hkeyword, ?_⟩
    rw [List.nil_append, hdrop, hname, List.length_map, List.take_left, List.drop_left,
      Bool.and_eq_true]
    exact ⟨decide_eq_true rfl, hend⟩

/-- A declaration of what is left of a file. -/
theorem declares_drop {content : List UInt8} {i j : ℕ} (hi : i ≤ content.length) :
    Declares (content.drop i) 0 j ↔ Declares content i (i + j) := by
  constructor
  · rintro ⟨before, spaces, keyword, after, hcontent, hbefore, rfl, hrest⟩
    obtain rfl := List.length_eq_zero_iff.mp hbefore
    refine ⟨content.take i, spaces, keyword, after, ?_, List.length_take_of_le hi, ?_, hrest⟩
    · rw [List.nil_append] at hcontent
      rw [← hcontent, List.take_append_drop]
    · omega
  · rintro ⟨before, spaces, keyword, after, rfl, rfl, hj, hrest⟩
    refine ⟨[], spaces, keyword, after, ?_, rfl, ?_, hrest⟩
    · rw [List.drop_left, List.nil_append]
    · omega

theorem Declares.length_le {content : List UInt8} {i j : ℕ} (h : Declares content i j) :
    i ≤ j ∧ j ≤ content.length := by
  obtain ⟨before, spaces, keyword, after, rfl, rfl, rfl, -⟩ := h
  have hlength : (bytesOf "<!").length = 2 := by decide
  simp only [List.length_append, hlength]
  omega

/-- A declaration of the start of a file. -/
theorem declares_take {content : List UInt8} {i j e : ℕ} :
    Declares (content.take e) i j ↔ Declares content i j ∧ j ≤ e := by
  constructor
  · intro h
    have hj := h.length_le.2
    rw [List.length_take] at hj
    obtain ⟨before, spaces, keyword, after, hcontent, hbefore, hlength, hrest⟩ := h
    refine ⟨⟨before, spaces, keyword, after ++ content.drop e, ?_, hbefore, hlength, hrest⟩, by omega⟩
    conv_lhs => rw [← List.take_append_drop e content, hcontent]
    simp only [List.append_assoc]
  · rintro ⟨⟨before, spaces, keyword, after, rfl, rfl, rfl, hrest⟩, hj⟩
    have hlength : (bytesOf "<!").length = 2 := by decide
    refine ⟨before, spaces, keyword, after.take (e - (before.length + 2 + spaces.length +
      keyword.length)), ?_, rfl, rfl, hrest⟩
    rw [List.take_append, List.take_append, List.take_append, List.take_append,
      List.take_of_length_le (by omega), List.take_of_length_le (by omega),
      List.take_of_length_le (by omega), List.take_of_length_le (by omega)]
    congr 5
    omega

/-- A word ends where the start of a file ends. -/
theorem endsWord_take {content : List UInt8} {j e : ℕ} (hj : j ≤ e) :
    EndsWord (content.take e) j ↔ j = e ∨ EndsWord content j := by
  unfold EndsWord
  rw [List.getElem?_take]
  split_ifs with hlt
  · exact (or_iff_right (Nat.ne_of_lt hlt)).symm
  · have heq : j = e := by omega
    simp [heq]

/-- Where the pattern matches in the start of a file. -/
theorem declarationAt_drop_iff {content : List UInt8} {i : ℕ} :
    declarationAt (content.drop i) = true ↔ ∃ j, Declares content i j ∧ EndsWord content j := by
  rw [declarationAt_iff]
  by_cases hi : i ≤ content.length
  · constructor
    · rintro ⟨j, hdeclares, hend⟩
      refine ⟨i + j, (declares_drop hi).mp hdeclares, ?_⟩
      rwa [EndsWord, List.getElem?_drop] at hend
    · rintro ⟨j, hdeclares, hend⟩
      obtain ⟨d, rfl⟩ := Nat.exists_eq_add_of_le hdeclares.length_le.1
      refine ⟨d, (declares_drop hi).mpr hdeclares, ?_⟩
      rwa [EndsWord, List.getElem?_drop]
  · refine iff_of_false ?_ ?_
    · rintro ⟨j, hdeclares, -⟩
      rw [List.drop_eq_nil_of_le (by omega)] at hdeclares
      obtain ⟨before, spaces, keyword, after, hnil, -⟩ := hdeclares
      have hlength := congrArg List.length hnil
      simp [bytesOf] at hlength
    · rintro ⟨j, hdeclares, -⟩
      have hle := hdeclares.length_le
      omega

/-- The search of a whole file. -/
theorem search_iff {content : List UInt8} :
    search content = true ↔ ∃ i j, Declares content i j ∧ EndsWord content j := by
  rw [search, List.any_eq_true]
  simp only [← declarationAt_drop_iff, List.mem_tails]
  constructor
  · rintro ⟨rest, ⟨before, rfl⟩, hrest⟩
    exact ⟨before.length, by rwa [List.drop_left]⟩
  · rintro ⟨i, hi⟩
    exact ⟨content.drop i, List.drop_suffix i content, hi⟩

/-- **The search in chunks** finds the declarations that are seen. -/
theorem scan_iff {content : List UInt8} :
    scan 32 search [] (chunks (64 * 1024) content) = true ↔ Seen content := by
  rw [scan_eq_true_iff (by decide) (by decide)]
  unfold search
  simp only [exists_window_iff, declarationAt_drop_iff]
  constructor
  · rintro ⟨k, hk, i, hi, j, hdeclares, hend⟩
    obtain ⟨hdeclares, hj⟩ := declares_take.mp hdeclares
    exact ⟨k, i, j, hk, hi, hj, hdeclares, (endsWord_take hj).mp hend⟩
  · rintro ⟨k, i, j, hk, hi, hj, hdeclares, hend⟩
    exact ⟨k, hk, i, hi, j, declares_take.mpr ⟨hdeclares, hj⟩, (endsWord_take hj).mpr hend⟩

/-- **For which files the search in chunks is enough**: those without a declaration, and those with
one that is seen. -/
theorem raises_iff {content : List UInt8} (h : headAccepted content = true) :
    (search content = true → checkXml content =
        .error "DTD and entity declarations are forbidden") ↔
      search content = false ∨ Seen content := by
  have hcheck : checkXml content = .error "DTD and entity declarations are forbidden" ↔
      Seen content := by
    rw [checkXml, h, ← scan_iff]
    split_ifs with hscan hscan
    · exact absurd hscan (by decide)
    · exact iff_of_true rfl hscan
    · exact iff_of_false (fun heq => by cases heq) hscan
  rw [hcheck, ← Bool.not_eq_true, ← imp_iff_not_or]

/-- **A short declaration is seen** wherever it stands. -/
theorem seen_of_short {content : List UInt8} {i j : ℕ} (h : Declares content i j)
    (hend : EndsWord content j) (hshort : j ≤ i + 32) : Seen content := by
  have hle := h.length_le
  have hpos : i < content.length := by
    obtain ⟨before, spaces, keyword, after, rfl, rfl, -⟩ := h
    simp [bytesOf]
  by_cases hfits : j ≤ (i / (64 * 1024) + 1) * (64 * 1024)
  · exact ⟨i / (64 * 1024), i, j, by omega, by omega, hfits, h, Or.inr hend⟩
  · exact ⟨i / (64 * 1024) + 1, i, j, by omega, by omega, by omega, h, Or.inr hend⟩

/-! ### Two files -/

/-- The bytes of a file with a declaration in front. -/
def declaredFirst : List UInt8 := bytesOf "<!DOCTYPE a>"

theorem raises_iff_declaredFirst :
    (search declaredFirst = true → checkXml declaredFirst =
        .error "DTD and entity declarations are forbidden") ↔
      search declaredFirst = false ∨ Seen declaredFirst :=
  raises_iff (by decide +kernel)

/-- Spaces, a declaration with forty spaces in it, and a space. -/
def widened (spaces : ℕ) : List UInt8 :=
  List.replicate spaces 32 ++ (bytesOf "<!" ++ (List.replicate 40 32 ++ (bytesOf "DOCTYPE" ++ [32])))

theorem widened_behind (n : ℕ) : (widened n).drop n =
    bytesOf "<!" ++ (List.replicate 40 32 ++ (bytesOf "DOCTYPE" ++ [32])) :=
  List.drop_left' List.length_replicate

/-- The only declaration of such a file. -/
theorem declares_widened {n i j : ℕ} (h : Declares (widened n) i j) : i = n ∧ j = n + 49 := by
  obtain ⟨before, spaces, keyword, after, hcontent, rfl, rfl, hspaces, hkeyword⟩ := h
  obtain ⟨b, tail, hhead, hb⟩ := exists_head_of_keyword hkeyword
  -- only one byte is `<`
  have hbracket : (widened n)[before.length]? = some 60 := by
    rw [hcontent, List.getElem?_append_right le_rfl, Nat.sub_self]
    rfl
  have hpos : before.length = n := by
    rw [widened] at hbracket
    by_cases hlt : before.length < n
    · rw [List.getElem?_append_left (by rwa [List.length_replicate]),
        List.getElem?_replicate_of_lt hlt] at hbracket
      exact absurd (Option.some.inj hbracket) (by decide)
    · rw [List.getElem?_append_right (by rw [List.length_replicate]; omega),
        List.length_replicate] at hbracket
      have honly : ∀ k : ℕ, (bytesOf "<!" ++ (List.replicate 40 32 ++ (bytesOf "DOCTYPE" ++ [32])))[k]? =
          some (60 : UInt8) → k = 0 := by
        intro k hk
        have hlength := (List.getElem?_eq_some_iff.mp hk).1
        have hbound : k < 50 := lt_of_lt_of_eq hlength (by decide)
        interval_cases k <;> first | rfl | exact absurd hk (by decide)
      have hzero := honly _ hbracket
      omega
  have hrest : bytesOf "<!" ++ (spaces ++ (keyword ++ after)) =
      bytesOf "<!" ++ (List.replicate 40 32 ++ (bytesOf "DOCTYPE" ++ [32])) := by
    rw [← widened_behind n, hcontent]
    exact (List.drop_left' hpos).symm
  have hname : keyword ++ after = bytesOf "DOCTYPE" ++ [32] := by
    have hdrop := congrArg (List.dropWhile isSpaceByte) (List.append_cancel_left hrest)
    rw [List.dropWhile_append_of_pos hspaces, hhead, List.cons_append,
      List.dropWhile_cons_of_neg (by rw [hb]; decide)] at hdrop
    rw [hhead, List.cons_append, hdrop]
    decide
  rw [hname] at hrest
  have hlength : spaces.length = 40 := by
    rw [List.append_cancel_right (List.append_cancel_left hrest), List.length_replicate]
  have hword : keyword.length = 7 := by
    have hmap : keyword.length = (keyword.map lowerByte).length := (List.length_map _).symm
    simp only [keywords, List.mem_cons, List.not_mem_nil, or_false] at hkeyword
    rcases hkeyword with hkeyword | hkeyword
    · rw [hmap, hkeyword]
      decide
    · have htake : keyword = (bytesOf "DOCTYPE" ++ [32]).take 6 := by
        rw [← hname, List.take_left' (by rw [hmap, hkeyword]; decide)]
      rw [htake] at hkeyword
      exact absurd hkeyword (by decide)
  exact ⟨hpos, by omega⟩

/-- **A wide declaration** from byte 65,500 on is found by no search of a chunk. -/
theorem widened_unseen : headAccepted (widened 65500) = true ∧ search (widened 65500) = true ∧
    checkXml (widened 65500) = .ok () := by
  have hhead : (widened 65500).take 256 = List.replicate 256 32 := by
    rw [widened, List.take_append_of_le_length (by rw [List.length_replicate]; decide),
      List.take_replicate]
    rfl
  have haccepted : headAccepted (widened 65500) = true := by
    rw [headAccepted, hhead]
    decide +kernel
  have hdeclares : Declares (widened 65500) 65500 65549 := by
    refine ⟨_, _, bytesOf "DOCTYPE", [32], rfl, List.length_replicate, ?_, ?_, by decide⟩
    · rw [List.length_replicate]
      rfl
    · exact fun b hb => by rw [List.eq_of_mem_replicate hb]; decide
  have hend : EndsWord (widened 65500) 65549 := by
    have hbehind : (widened 65500)[65500 + 49]? = some 32 := by
      rw [← List.getElem?_drop, widened_behind]
      decide
    rw [EndsWord, hbehind]
    decide
  have hunseen : ¬ Seen (widened 65500) := by
    rintro ⟨k, i, j, -, hi, hj, hdeclares, -⟩
    obtain ⟨rfl, rfl⟩ := declares_widened hdeclares
    omega
  refine ⟨haccepted, search_iff.mpr ⟨_, _, hdeclares, hend⟩, ?_⟩
  rw [checkXml, haccepted, if_neg (by decide), if_neg fun hscan => hunseen (scan_iff.mp hscan)]

end ProcureSignal.Retrieval.Sanctions
