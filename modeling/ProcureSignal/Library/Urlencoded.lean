/-
# Percent-encoded queries

`parse_qsl` and `urlencode` of Python's `urllib.parse`: text is encoded in UTF-8, bytes other than
letters, digits and `_.-~` are escaped, and a space is a plus sign.  Decoding takes any text; bytes
that are no UTF-8 are replaced.

* `utf8`, `decode` : UTF-8, and its decoding with `errors="replace"`;
* `quotePlus`, `unquotePlus` : one name or value;
* `parseQsl`, `urlencode` : a query;
* `parseQsl_urlencode` : **an encoded query is decoded to what it was**;
* `unquotePlus_concat` : a character that is no part of an escape is kept.
-/
import Mathlib

namespace Urllib

/-! ## Partitions -/

/-- The part behind a first character, and nothing without it. -/
def after (c : Char) (cs : List Char) : List Char := (cs.dropWhile (· ≠ c)).drop 1

theorem takeWhile_append_cons {p : Char → Bool} {cs rest : List Char} {c : Char}
    (hcs : ∀ d ∈ cs, p d = true) (hc : p c = false) : (cs ++ c :: rest).takeWhile p = cs := by
  rw [List.takeWhile_append_of_pos hcs, List.takeWhile_cons_of_neg (by rw [hc]; decide),
    List.append_nil]

theorem dropWhile_append_cons {p : Char → Bool} {cs rest : List Char} {c : Char}
    (hcs : ∀ d ∈ cs, p d = true) (hc : p c = false) :
    (cs ++ c :: rest).dropWhile p = c :: rest := by
  rw [List.dropWhile_append_of_pos hcs, List.dropWhile_cons_of_neg (by rw [hc]; decide)]

/-- The parts before and behind a first character. -/
theorem takeWhile_append_after {c : Char} {cs : List Char} (h : c ∈ cs) :
    cs.takeWhile (· ≠ c) ++ c :: after c cs = cs := by
  have hne : cs.dropWhile (· ≠ c) ≠ [] := fun hnil => by
    have := List.dropWhile_eq_nil_iff.mp hnil c h
    simp at this
  have hhead : (cs.dropWhile (· ≠ c)).head hne = c := by
    simpa using List.head_dropWhile_not (fun d => decide (d ≠ c)) hne
  have hdrop : c :: after c cs = cs.dropWhile (· ≠ c) := by
    conv_rhs => rw [← List.cons_head_tail hne, hhead]
    rw [after, List.drop_one]
  rw [hdrop, List.takeWhile_append_dropWhile]

theorem ne_of_not_mem {c : Char} {cs : List Char} (h : c ∉ cs) : ∀ d ∈ cs, decide (d ≠ c) = true :=
  fun _ hd => decide_eq_true fun heq => h (heq ▸ hd)

theorem after_append_cons {c : Char} {cs : List Char} (h : c ∉ cs) (rest : List Char) :
    after c (cs ++ c :: rest) = rest := by
  rw [after, dropWhile_append_cons (ne_of_not_mem h) (by simp), List.drop_one, List.tail_cons]

theorem after_of_not_mem {c : Char} {cs : List Char} (h : c ∉ cs) : after c cs = [] := by
  rw [after, List.dropWhile_eq_nil_iff.mpr (ne_of_not_mem h), List.drop_nil]

theorem takeWhile_of_not_mem {c : Char} {cs : List Char} (h : c ∉ cs) :
    cs.takeWhile (· ≠ c) = cs :=
  List.takeWhile_eq_self_iff.mpr (ne_of_not_mem h)

theorem not_mem_takeWhile (c : Char) (cs : List Char) : c ∉ cs.takeWhile (· ≠ c) := fun h => by
  simpa using List.mem_takeWhile_imp h

theorem takeWhile_append_of_mem {c : Char} {cs : List Char} (h : c ∈ cs) (rest : List Char) :
    (cs ++ rest).takeWhile (· ≠ c) = cs.takeWhile (· ≠ c) := by
  have hbefore := not_mem_takeWhile c cs
  conv_lhs => rw [← takeWhile_append_after h, List.append_assoc, List.cons_append]
  exact takeWhile_append_cons (ne_of_not_mem hbefore) (by simp)

theorem after_append_of_mem {c : Char} {cs : List Char} (h : c ∈ cs) (rest : List Char) :
    after c (cs ++ rest) = after c cs ++ rest := by
  have hbefore := not_mem_takeWhile c cs
  conv_lhs => rw [← takeWhile_append_after h, List.append_assoc, List.cons_append]
  exact after_append_cons hbefore _

/-! ## UTF-8 -/

/-- The bytes of a character. -/
def utf8 (c : Char) : List ℕ :=
  let n := c.toNat
  if n < 0x80 then [n]
  else if n < 0x800 then [0xC0 + n / 64, 0x80 + n % 64]
  else if n < 0x10000 then [0xE0 + n / 4096, 0x80 + n / 64 % 64, 0x80 + n % 64]
  else [0xF0 + n / 262144, 0x80 + n / 4096 % 64, 0x80 + n / 64 % 64, 0x80 + n % 64]

/-- A byte that continues a sequence. -/
def IsContinuation (b : ℕ) : Prop := 0x80 ≤ b ∧ b < 0xC0

instance : DecidablePred IsContinuation := fun _ => inferInstanceAs (Decidable (_ ∧ _))

/-- A byte that continues a sequence right after its first byte: what would be an overlong form, a
surrogate or above the last code point does not. -/
def IsSecond (first b : ℕ) : Prop :=
  IsContinuation b ∧ (first = 0xE0 → 0xA0 ≤ b) ∧ (first = 0xED → b < 0xA0) ∧
    (first = 0xF0 → 0x90 ≤ b) ∧ (first = 0xF4 → b < 0x90)

instance (first : ℕ) : DecidablePred (IsSecond first) :=
  fun _ => inferInstanceAs (Decidable (_ ∧ _ ∧ _ ∧ _ ∧ _))

/-- U+FFFD. -/
def replacement : Char := Char.ofNat 0xFFFD

/-- The first character of a list of bytes, and how many bytes it takes.  The longest start of a
sequence that goes wrong is replaced. -/
def decodeHead (bs : List ℕ) : Char × ℕ :=
  -- a byte past the end is 0, which continues nothing
  let b := bs.getD 0 0
  let b₁ := bs.getD 1 0
  let b₂ := bs.getD 2 0
  let b₃ := bs.getD 3 0
  if b < 0x80 then (Char.ofNat b, 1)
  else if 0xC2 ≤ b ∧ b < 0xE0 then
    if IsContinuation b₁ then (Char.ofNat ((b - 0xC0) * 64 + (b₁ - 0x80)), 2) else (replacement, 1)
  else if 0xE0 ≤ b ∧ b < 0xF0 then
    if IsSecond b b₁ then
      if IsContinuation b₂ then
        (Char.ofNat ((b - 0xE0) * 4096 + (b₁ - 0x80) * 64 + (b₂ - 0x80)), 3)
      else (replacement, 2)
    else (replacement, 1)
  else if 0xF0 ≤ b ∧ b < 0xF5 then
    if IsSecond b b₁ then
      if IsContinuation b₂ then
        if IsContinuation b₃ then
          (Char.ofNat ((b - 0xF0) * 262144 + (b₁ - 0x80) * 4096 + (b₂ - 0x80) * 64 + (b₃ - 0x80)), 4)
        else (replacement, 3)
      else (replacement, 2)
    else (replacement, 1)
  else (replacement, 1)

/-- Decode after `skip` bytes of the character before. -/
def decodeFrom : ℕ → List ℕ → List Char
  | _, [] => []
  | skip + 1, _ :: bs => decodeFrom skip bs
  | 0, b :: bs => (decodeHead (b :: bs)).1 :: decodeFrom ((decodeHead (b :: bs)).2 - 1) bs

/-- `bytes.decode("utf-8", errors="replace")`. -/
def decode (bs : List ℕ) : List Char := decodeFrom 0 bs

theorem utf8_ne_nil (c : Char) : utf8 c ≠ [] := by
  unfold utf8
  dsimp only
  split_ifs <;> exact List.cons_ne_nil _ _

theorem utf8_of_lt {c : Char} (h : c.toNat < 0x80) : utf8 c = [c.toNat] := if_pos h

/-- The bytes of a character start with the character. -/
theorem decodeHead_utf8 (c : Char) (bs : List ℕ) :
    decodeHead (utf8 c ++ bs) = (c, (utf8 c).length) := by
  have hvalid : c.toNat < 0xD800 ∨ 0xDFFF < c.toNat ∧ c.toNat < 0x110000 := c.valid
  have hback : ∀ n, n = c.toNat → Char.ofNat n = c := fun n hn => by rw [hn, Char.ofNat_toNat]
  unfold utf8
  dsimp only
  split_ifs with h₁ h₂ h₃
  · simp [decodeHead, h₁]
  · have hfirst : 0xC2 ≤ 0xC0 + c.toNat / 64 ∧ 0xC0 + c.toNat / 64 < 0xE0 := by omega
    have hsecond : IsContinuation (0x80 + c.toNat % 64) := by constructor <;> omega
    simp only [decodeHead, List.cons_append, List.nil_append, List.getD_cons_zero,
      List.getD_cons_succ, if_neg (by omega : ¬ 0xC0 + c.toNat / 64 < 0x80), if_pos hfirst,
      if_pos hsecond, List.length_cons, List.length_nil]
    rw [hback _ (by omega)]
  · have hfirst : 0xE0 ≤ 0xE0 + c.toNat / 4096 ∧ 0xE0 + c.toNat / 4096 < 0xF0 := by omega
    have hsecond : IsSecond (0xE0 + c.toNat / 4096) (0x80 + c.toNat / 64 % 64) := by
      refine ⟨⟨?_, ?_⟩, ?_, ?_, ?_, ?_⟩ <;> omega
    have hthird : IsContinuation (0x80 + c.toNat % 64) := by constructor <;> omega
    simp only [decodeHead, List.cons_append, List.nil_append, List.getD_cons_zero,
      List.getD_cons_succ, if_neg (by omega : ¬ 0xE0 + c.toNat / 4096 < 0x80),
      if_neg (by omega : ¬ (0xC2 ≤ 0xE0 + c.toNat / 4096 ∧ 0xE0 + c.toNat / 4096 < 0xE0)),
      if_pos hfirst, if_pos hsecond, if_pos hthird, List.length_cons, List.length_nil]
    rw [hback _ (by omega)]
  · have hfirst : 0xF0 ≤ 0xF0 + c.toNat / 262144 ∧ 0xF0 + c.toNat / 262144 < 0xF5 := by omega
    have hsecond : IsSecond (0xF0 + c.toNat / 262144) (0x80 + c.toNat / 4096 % 64) := by
      refine ⟨⟨?_, ?_⟩, ?_, ?_, ?_, ?_⟩ <;> omega
    have hthird : IsContinuation (0x80 + c.toNat / 64 % 64) := by constructor <;> omega
    have hfourth : IsContinuation (0x80 + c.toNat % 64) := by constructor <;> omega
    simp only [decodeHead, List.cons_append, List.nil_append, List.getD_cons_zero,
      List.getD_cons_succ, if_neg (by omega : ¬ 0xF0 + c.toNat / 262144 < 0x80),
      if_neg (by omega : ¬ (0xC2 ≤ 0xF0 + c.toNat / 262144 ∧ 0xF0 + c.toNat / 262144 < 0xE0)),
      if_neg (by omega : ¬ (0xE0 ≤ 0xF0 + c.toNat / 262144 ∧ 0xF0 + c.toNat / 262144 < 0xF0)),
      if_pos hfirst, if_pos hsecond, if_pos hthird, if_pos hfourth, List.length_cons,
      List.length_nil]
    rw [hback _ (by omega)]

theorem decodeFrom_append (skipped bs : List ℕ) :
    decodeFrom skipped.length (skipped ++ bs) = decode bs := by
  induction skipped with
  | nil => rfl
  | cons b skipped ih => exact ih

/-- Decoding undoes the encoding of a character. -/
theorem decode_utf8 (c : Char) (bs : List ℕ) : decode (utf8 c ++ bs) = c :: decode bs := by
  cases h : utf8 c with
  | nil => exact absurd h (utf8_ne_nil c)
  | cons b rest =>
      have hhead := decodeHead_utf8 c bs
      rw [h, List.cons_append] at hhead
      rw [List.cons_append, decode, decodeFrom, hhead, List.length_cons, Nat.add_sub_cancel,
        decodeFrom_append]

theorem decode_flatMap_utf8 (cs : List Char) (bs : List ℕ) :
    decode (cs.flatMap utf8 ++ bs) = cs ++ decode bs := by
  induction cs with
  | nil => rfl
  | cons c cs ih =>
      rw [List.flatMap_cons, List.append_assoc, decode_utf8, ih, List.cons_append]

/-! ### A last byte of its own -/

theorem getD_concat (bs : List ℕ) (a k : ℕ) :
    (bs ++ [a]).getD k 0 = bs.getD k 0 ∨ bs.getD k 0 = 0 ∧ (bs ++ [a]).getD k 0 = a := by
  rcases lt_trichotomy k bs.length with h | h | h
  · exact Or.inl (by simp [List.getD_eq_getElem?_getD, List.getElem?_append_left h])
  · exact Or.inr (by simp [List.getD_eq_getElem?_getD, h])
  · refine Or.inl ?_
    simp [List.getD_eq_getElem?_getD, List.getElem?_eq_none (by simp; omega : (bs ++ [a]).length ≤ k),
      List.getElem?_eq_none h.le]

theorem not_isContinuation {b : ℕ} (h : b < 0x80) : ¬ IsContinuation b := fun hb => by
  have := hb.1
  omega

theorem not_isSecond {first b : ℕ} (h : b < 0x80) : ¬ IsSecond first b :=
  fun hb => not_isContinuation h hb.1

/-- A byte below 0x80 at the end is no part of the first character. -/
theorem decodeHead_concat {bs : List ℕ} (hne : bs ≠ []) {a : ℕ} (ha : a < 0x80) :
    decodeHead (bs ++ [a]) = decodeHead bs := by
  have hzero : (bs ++ [a]).getD 0 0 = bs.getD 0 0 := by
    cases bs with
    | nil => exact absurd rfl hne
    | cons b bs => rfl
  have hlow : ∀ {x : ℕ}, x = 0 → x < 0x80 := fun h => by omega
  unfold decodeHead
  dsimp only
  rw [hzero]
  generalize bs.getD 0 0 = b
  rcases getD_concat bs a 1 with h₁ | ⟨h₁, h₁'⟩
  · rcases getD_concat bs a 2 with h₂ | ⟨h₂, h₂'⟩
    · rcases getD_concat bs a 3 with h₃ | ⟨h₃, h₃'⟩
      · rw [h₁, h₂, h₃]
      · rw [h₁, h₂, h₃, h₃', if_neg (not_isContinuation ha),
          if_neg (not_isContinuation (hlow rfl))]
    · rw [h₁, h₂, h₂']
      simp only [if_neg (not_isContinuation ha), if_neg (not_isContinuation (hlow rfl))]
  · rw [h₁, h₁']
    simp only [if_neg (not_isContinuation ha), if_neg (not_isContinuation (hlow rfl)),
      if_neg (not_isSecond ha), if_neg (not_isSecond (hlow rfl))]

theorem decodeHead_le {bs : List ℕ} (hne : bs ≠ []) : (decodeHead bs).2 ≤ bs.length := by
  have hlength : ∀ k, bs.getD k 0 ≠ 0 → k < bs.length := by
    intro k hk
    by_contra hle
    exact hk (by simp [List.getD_eq_getElem?_getD, List.getElem?_eq_none (not_lt.mp hle)])
  have hpos := List.length_pos_of_ne_nil hne
  have hcont : ∀ k, IsContinuation (bs.getD k 0) → k < bs.length := fun k hk =>
    hlength k fun h0 => not_isContinuation (by omega) hk
  unfold decodeHead
  dsimp only
  split_ifs with h₁ h₂ h₃ h₄ h₅ h₆ h₇ h₈ h₉ h₁₀ <;>
    first
    | exact hpos
    | exact hcont _ ‹IsContinuation (bs.getD 3 0)›
    | exact hcont _ ‹IsContinuation (bs.getD 2 0)›
    | exact hcont _ ‹IsContinuation (bs.getD 1 0)›
    | exact hcont _ (And.left ‹IsSecond (bs.getD 0 0) (bs.getD 1 0)›)

/-- **A byte below 0x80 at the end is a character of its own.** -/
theorem decode_concat (bs : List ℕ) {a : ℕ} (ha : a < 0x80) :
    decode (bs ++ [a]) = decode bs ++ [Char.ofNat a] := by
  have hfrom : ∀ (bs : List ℕ) (skip : ℕ), skip ≤ bs.length →
      decodeFrom skip (bs ++ [a]) = decodeFrom skip bs ++ [Char.ofNat a] := by
    intro bs
    induction bs with
    | nil =>
        intro skip hskip
        obtain rfl := Nat.le_zero.mp hskip
        simp [decodeFrom, decodeHead, ha]
    | cons b bs ih =>
        intro skip hskip
        cases skip with
        | zero =>
            have hhead := decodeHead_concat (List.cons_ne_nil b bs) ha
            have hle := decodeHead_le (List.cons_ne_nil b bs)
            rw [List.cons_append] at hhead ⊢
            rw [decodeFrom, decodeFrom, hhead, List.cons_append, ih]
            rw [List.length_cons] at hle
            omega
        | succ skip => exact ih skip (Nat.le_of_succ_le_succ hskip)
  exact hfrom bs 0 (Nat.zero_le _)

/-! ## Escapes -/

/-- The digits of an escape. -/
def hexDigit (n : ℕ) : Char := Char.ofNat (if n < 10 then 0x30 + n else 0x37 + n)

/-- The value of a hexadecimal digit. -/
def hexValue (c : Char) : Option ℕ :=
  if '0' ≤ c ∧ c ≤ '9' then some (c.toNat - 0x30)
  else if 'A' ≤ c ∧ c ≤ 'F' then some (c.toNat - 0x37)
  else if 'a' ≤ c ∧ c ≤ 'f' then some (c.toNat - 0x57)
  else none

/-- `_ALWAYS_SAFE`: a letter, a digit or one of `_.-~`, in ASCII. -/
def isSafe (c : Char) : Bool := c.isAlphanum || c ∈ ['_', '.', '-', '~']

/-- An escaped byte. -/
def escape (b : ℕ) : List Char := ['%', hexDigit (b / 16), hexDigit (b % 16)]

/-- A character in `quote_plus`. -/
def quoteChar (c : Char) : List Char :=
  if c = ' ' then ['+'] else if isSafe c then [c] else (utf8 c).flatMap escape

/-- `quote_plus`. -/
def quotePlus (cs : List Char) : List Char := cs.flatMap quoteChar

/-- `unquote_to_bytes` of ASCII text. -/
def unquoteToBytes : List Char → List ℕ
  | '%' :: a :: b :: cs =>
      match hexValue a, hexValue b with
      | some x, some y => (16 * x + y) :: unquoteToBytes cs
      | _, _ => '%'.toNat :: unquoteToBytes (a :: b :: cs)
  | c :: cs => c.toNat :: unquoteToBytes cs
  | [] => []

/-- `unquote`: the runs of ASCII characters are decoded, the current one is in reverse order. -/
def unquoteFrom : List Char → List Char → List Char
  | run, [] => decode (unquoteToBytes run.reverse)
  | run, c :: cs =>
      if c.toNat < 0x80 then unquoteFrom (c :: run) cs
      else decode (unquoteToBytes run.reverse) ++ c :: unquoteFrom [] cs

/-- `unquote_plus`. -/
def unquotePlus (cs : List Char) : List Char :=
  unquoteFrom [] (cs.map fun c => if c = '+' then ' ' else c)

theorem utf8_lt (c : Char) : ∀ b ∈ utf8 c, b < 256 := by
  have hvalid : c.toNat < 0xD800 ∨ 0xDFFF < c.toNat ∧ c.toNat < 0x110000 := c.valid
  intro b hb
  unfold utf8 at hb
  dsimp only at hb
  split_ifs at hb <;> simp only [List.mem_cons, List.not_mem_nil, or_false] at hb <;> omega

theorem hexDigit_spec : ∀ n < 16, hexValue (hexDigit n) = some n ∧ isSafe (hexDigit n) = true := by
  decide

/-- The safe characters are visible ones. -/
theorem isSafe_graphic {c : Char} (h : isSafe c = true) : 0x21 ≤ c.toNat ∧ c.toNat ≤ 0x7E := by
  have hval : c.val.toNat = c.toNat := rfl
  simp only [isSafe, Char.isAlphanum, Char.isAlpha, Char.isUpper, Char.isLower, Char.isDigit,
    Bool.or_eq_true, Bool.and_eq_true, decide_eq_true_eq, List.mem_cons, List.not_mem_nil,
    or_false, ge_iff_le, UInt32.le_iff_toNat_le, hval] at h
  rcases h with ((h | h) | h) | rfl | rfl | rfl | rfl
  · exact ⟨le_trans (by decide) h.1, h.2.trans (by decide)⟩
  · exact ⟨le_trans (by decide) h.1, h.2.trans (by decide)⟩
  · exact ⟨le_trans (by decide) h.1, h.2.trans (by decide)⟩
  all_goals decide

theorem isSafe_lt {c : Char} (h : isSafe c = true) : c.toNat < 0x80 ∧ c ≠ '%' ∧ c ≠ '+' := by
  refine ⟨(isSafe_graphic h).2.trans_lt (by decide), ?_, ?_⟩
  · rintro rfl
    exact absurd h (by decide)
  · rintro rfl
    exact absurd h (by decide)

theorem unquoteToBytes_escape {b : ℕ} (h : b < 256) (cs : List Char) :
    unquoteToBytes (escape b ++ cs) = b :: unquoteToBytes cs := by
  have hhigh := (hexDigit_spec (b / 16) (by omega)).1
  have hlow := (hexDigit_spec (b % 16) (by omega)).1
  simp only [escape, List.cons_append, List.nil_append, unquoteToBytes, hhigh, hlow]
  rw [Nat.div_add_mod]

theorem unquoteToBytes_cons {c : Char} (hc : c ≠ '%') (cs : List Char) :
    unquoteToBytes (c :: cs) = c.toNat :: unquoteToBytes cs := by
  rw [unquoteToBytes]
  exact fun _ _ _ h => absurd h hc

theorem unquoteToBytes_flatMap_escape {bs : List ℕ} (h : ∀ b ∈ bs, b < 256) (cs : List Char) :
    unquoteToBytes (bs.flatMap escape ++ cs) = bs ++ unquoteToBytes cs := by
  induction bs with
  | nil => rfl
  | cons b bs ih =>
      rw [List.flatMap_cons, List.append_assoc, unquoteToBytes_escape (h b List.mem_cons_self),
        ih fun x hx => h x (List.mem_cons_of_mem b hx), List.cons_append]

/-- A run of ASCII characters to the end. -/
theorem unquoteFrom_of_ascii {cs : List Char} (h : ∀ c ∈ cs, c.toNat < 0x80) (run : List Char) :
    unquoteFrom run cs = decode (unquoteToBytes (run.reverse ++ cs)) := by
  induction cs generalizing run with
  | nil => rw [unquoteFrom, List.append_nil]
  | cons c cs ih =>
      rw [unquoteFrom, if_pos (h c List.mem_cons_self),
        ih fun d hd => h d (List.mem_cons_of_mem c hd), List.reverse_cons, List.append_assoc]
      rfl

/-- What `quote_plus` writes: safe characters, percent signs and plus signs. -/
theorem mem_quotePlus {cs : List Char} {c : Char} (h : c ∈ quotePlus cs) :
    isSafe c = true ∨ c = '%' ∨ c = '+' := by
  obtain ⟨d, -, hd⟩ := List.mem_flatMap.mp h
  unfold quoteChar at hd
  split_ifs at hd with hspace hsafe
  · exact Or.inr (Or.inr (List.mem_singleton.mp hd))
  · rw [List.mem_singleton.mp hd]
    exact Or.inl hsafe
  · obtain ⟨b, hb, hmem⟩ := List.mem_flatMap.mp hd
    have hlt := utf8_lt d b hb
    simp only [escape, List.mem_cons, List.not_mem_nil, or_false] at hmem
    rcases hmem with rfl | rfl | rfl
    · exact Or.inr (Or.inl rfl)
    · exact Or.inl (hexDigit_spec _ (by omega)).2
    · exact Or.inl (hexDigit_spec _ (by omega)).2

theorem toNat_lt_of_mem_quotePlus {cs : List Char} {c : Char} (h : c ∈ quotePlus cs) :
    c.toNat < 0x80 := by
  rcases mem_quotePlus h with h | rfl | rfl
  · exact (isSafe_lt h).1
  · decide
  · decide

/-- An encoded character is read as its bytes. -/
theorem unquoteToBytes_quoteChar (c : Char) (cs : List Char) :
    unquoteToBytes ((quoteChar c).map (fun d => if d = '+' then ' ' else d) ++ cs) =
      utf8 c ++ unquoteToBytes cs := by
  unfold quoteChar
  split_ifs with hspace hsafe
  · rw [hspace]
    rfl
  · obtain ⟨hlt, hpercent, hplus⟩ := isSafe_lt hsafe
    rw [List.map_singleton, if_neg hplus, utf8_of_lt hlt, List.singleton_append,
      unquoteToBytes_cons hpercent, List.singleton_append]
  · have hmap : ((utf8 c).flatMap escape).map (fun d => if d = '+' then ' ' else d) =
        (utf8 c).flatMap escape := by
      rw [List.map_congr_left (g := id), List.map_id]
      intro d hd
      refine if_neg ?_
      rintro rfl
      obtain ⟨b, hb, hmem⟩ := List.mem_flatMap.mp hd
      have hlt := utf8_lt c b hb
      simp only [escape, List.mem_cons, List.not_mem_nil, or_false] at hmem
      rcases hmem with h | h | h
      · exact absurd h (by decide)
      · exact (isSafe_lt (hexDigit_spec _ (by omega : b / 16 < 16)).2).2.2 h.symm
      · exact (isSafe_lt (hexDigit_spec _ (by omega : b % 16 < 16)).2).2.2 h.symm
    rw [hmap, unquoteToBytes_flatMap_escape (utf8_lt c)]

/-- **An encoded text is decoded to what it was.** -/
theorem unquotePlus_quotePlus (cs : List Char) : unquotePlus (quotePlus cs) = cs := by
  have hascii : ∀ c ∈ (quotePlus cs).map (fun c => if c = '+' then ' ' else c), c.toNat < 0x80 := by
    intro c hc
    obtain ⟨d, hd, rfl⟩ := List.mem_map.mp hc
    split_ifs
    · decide
    · exact toNat_lt_of_mem_quotePlus hd
  have hbytes : unquoteToBytes ((quotePlus cs).map (fun c => if c = '+' then ' ' else c)) =
      cs.flatMap utf8 := by
    clear hascii
    induction cs with
    | nil => rfl
    | cons c cs ih =>
        rw [quotePlus, List.flatMap_cons, List.map_append, unquoteToBytes_quoteChar,
          List.flatMap_cons]
        exact congrArg _ ih
  rw [unquotePlus, unquoteFrom_of_ascii hascii, List.reverse_nil, List.nil_append, hbytes]
  simpa [decode, decodeFrom] using decode_flatMap_utf8 cs []

/-! ### Characters that are no part of an escape -/

theorem unquoteToBytes_concat {c : Char} (hc : hexValue c = none) (hpercent : c ≠ '%')
    (cs : List Char) : unquoteToBytes (cs ++ [c]) = unquoteToBytes cs ++ [c.toNat] := by
  induction cs using unquoteToBytes.induct with
  | case1 a b cs x y hx hy ih =>
      simp only [List.cons_append, unquoteToBytes, hx, hy, ih]
  | case2 a b cs hnone ih =>
      have hcons : ∀ rest, unquoteToBytes ('%' :: a :: b :: rest) =
          '%'.toNat :: unquoteToBytes (a :: b :: rest) := by
        intro rest
        rw [unquoteToBytes]
        split
        · exact absurd ‹_› (hnone _ _ ‹_›)
        · rfl
      rw [List.cons_append, List.cons_append, List.cons_append, hcons, hcons, List.cons_append, ← ih]
      rfl
  | case3 d cs hother ih =>
      by_cases hd : d = '%'
      · subst hd
        cases cs with
        | nil =>
            simp [unquoteToBytes]
        | cons a cs =>
            cases cs with
            | nil => simp_all [unquoteToBytes]
            | cons b cs => exact absurd rfl (hother a b cs rfl)
      · rw [List.cons_append, unquoteToBytes_cons hd, unquoteToBytes_cons hd, ih, List.cons_append]
  | case4 => simp [unquoteToBytes]

/-- **A character that is no part of an escape is kept** at the end of a text. -/
theorem unquotePlus_concat {c : Char} (hc : hexValue c = none) (hpercent : c ≠ '%')
    (hplus : c ≠ '+') (cs : List Char) : unquotePlus (cs ++ [c]) = unquotePlus cs ++ [c] := by
  have hfrom : ∀ (cs run : List Char), unquoteFrom run (cs ++ [c]) = unquoteFrom run cs ++ [c] := by
    intro cs
    induction cs with
    | nil =>
        intro run
        rw [List.nil_append, unquoteFrom, unquoteFrom]
        split_ifs with hlt
        · rw [unquoteFrom, List.reverse_cons, unquoteToBytes_concat hc hpercent, decode_concat _ hlt,
            Char.ofNat_toNat]
        · rfl
    | cons d cs ih =>
        intro run
        rw [List.cons_append, unquoteFrom, unquoteFrom]
        split_ifs
        · exact ih _
        · rw [ih, List.append_assoc, List.cons_append]
  rw [unquotePlus, List.map_append, List.map_singleton, if_neg hplus, hfrom]
  rfl

/-! ## Queries -/

/-- A name and a value, joined by `=`. -/
def encodePair (p : String × String) : List Char :=
  quotePlus p.1.toList ++ '=' :: quotePlus p.2.toList

/-- `urlencode(·, doseq=True)` of pairs of texts. -/
def urlencode (pairs : List (String × String)) : String :=
  String.ofList (['&'].intercalate (pairs.map encodePair))

/-- The pair that a segment stands for. -/
def decodePair (segment : List Char) : String × String :=
  (String.ofList (unquotePlus (segment.takeWhile (· ≠ '='))),
    String.ofList (unquotePlus (after '=' segment)))

/-- The segments of a query. -/
def segments (query : List Char) : List (List Char) := (query.splitOn '&').filter (· ≠ [])

/-- `parse_qsl(·, keep_blank_values=True)`. -/
def parseQsl (query : String) : List (String × String) := (segments query.toList).map decodePair

theorem not_mem_quotePlus {c : Char} (hsafe : isSafe c = false) (hpercent : c ≠ '%')
    (hplus : c ≠ '+') (cs : List Char) : c ∉ quotePlus cs := by
  intro h
  rcases mem_quotePlus h with h | h | h
  · rw [hsafe] at h
    exact absurd h Bool.false_ne_true
  · exact hpercent h
  · exact hplus h

theorem decodePair_encodePair (p : String × String) : decodePair (encodePair p) = p := by
  have hname : '=' ∉ quotePlus p.1.toList :=
    not_mem_quotePlus (by decide) (by decide) (by decide) _
  rw [decodePair, encodePair, takeWhile_append_cons (ne_of_not_mem hname) (by simp),
    after_append_cons hname, unquotePlus_quotePlus, unquotePlus_quotePlus, String.ofList_toList,
    String.ofList_toList]

theorem segments_urlencode (pairs : List (String × String)) :
    segments (urlencode pairs).toList = pairs.map encodePair := by
  have hne : ∀ s ∈ pairs.map encodePair, decide (s ≠ []) = true := by
    intro s hs
    obtain ⟨p, -, rfl⟩ := List.mem_map.mp hs
    exact decide_eq_true (List.append_ne_nil_of_right_ne_nil _ (List.cons_ne_nil _ _))
  rw [segments, urlencode, String.toList_ofList]
  cases pairs with
  | nil => rfl
  | cons p pairs =>
      rw [List.splitOn_intercalate '&' ?_ (by simp), List.filter_eq_self.mpr hne]
      intro s hs
      obtain ⟨q, -, rfl⟩ := List.mem_map.mp hs
      have hamp := not_mem_quotePlus (c := '&') (by decide) (by decide) (by decide)
      simp [encodePair, hamp]

/-- **An encoded query is decoded to what it was.** -/
theorem parseQsl_urlencode (pairs : List (String × String)) :
    parseQsl (urlencode pairs) = pairs := by
  rw [parseQsl, segments_urlencode, List.map_map]
  conv_rhs => rw [← List.map_id pairs]
  exact List.map_congr_left fun p _ => decodePair_encodePair p

theorem urlencode_injective : Function.Injective urlencode :=
  Function.LeftInverse.injective parseQsl_urlencode

theorem urlencode_eq_empty_iff {pairs : List (String × String)} :
    urlencode pairs = "" ↔ pairs = [] := by
  constructor
  · intro h
    rw [← parseQsl_urlencode pairs, h]
    rfl
  · rintro rfl
    rfl

/-- What an encoded query is written with. -/
theorem mem_urlencode {pairs : List (String × String)} {c : Char} (h : c ∈ (urlencode pairs).toList) :
    isSafe c = true ∨ c ∈ ['%', '+', '=', '&'] := by
  have hpair : ∀ p : String × String, c ∈ encodePair p → isSafe c = true ∨ c ∈ ['%', '+', '=', '&'] := by
    intro p hc
    rcases List.mem_append.mp hc with hc | hc
    · exact (mem_quotePlus hc).imp_right fun hor => by rcases hor with rfl | rfl <;> simp
    · rcases List.mem_cons.mp hc with rfl | hc
      · simp
      · exact (mem_quotePlus hc).imp_right fun hor => by rcases hor with rfl | rfl <;> simp
  rw [urlencode, String.toList_ofList] at h
  induction pairs with
  | nil => exact absurd h List.not_mem_nil
  | cons p pairs ih =>
      cases pairs with
      | nil => exact hpair p (by simpa using h)
      | cons q pairs =>
          rw [List.map_cons, List.map_cons, List.intercalate_cons_cons, List.mem_append,
            List.mem_append, List.mem_singleton] at h
          rcases h with (h | rfl) | h
          · exact hpair p h
          · simp
          · exact ih h

/-! ### The end of a query -/

/-- Text without a separator at the end of a query belongs to its last segment. -/
theorem splitOn_append {w : List Char} (hw : '&' ∉ w) (query : List Char) :
    ∃ first last, query.splitOn '&' = first ++ [last] ∧
      (query ++ w).splitOn '&' = first ++ [last ++ w] := by
  induction query with
  | nil => exact ⟨[], [], by simp, by simp [List.splitOn_eq_singleton hw]⟩
  | cons c query ih =>
      obtain ⟨first, last, hquery, happend⟩ := ih
      rw [List.cons_append, List.splitOn_cons_eq_if_modifyHead, List.splitOn_cons_eq_if_modifyHead,
        hquery, happend]
      split_ifs
      · exact ⟨[] :: first, last, rfl, rfl⟩
      · cases first with
        | nil => exact ⟨[], c :: last, rfl, rfl⟩
        | cons s first => exact ⟨(c :: s) :: first, last, rfl, rfl⟩

/-- The pair of a segment, and of the segment with one character more that is no part of an
escape. -/
theorem decodePair_concat {c : Char} (hc : hexValue c = none) (hpercent : c ≠ '%') (hplus : c ≠ '+')
    (hequals : c ≠ '=') (segment : List Char) :
    decodePair (segment ++ [c]) =
      if '=' ∈ segment then
        ((decodePair segment).1, String.ofList ((decodePair segment).2.toList ++ [c]))
      else (String.ofList ((decodePair segment).1.toList ++ [c]), (decodePair segment).2) := by
  split_ifs with hmem
  · rw [decodePair, decodePair, takeWhile_append_of_mem hmem, after_append_of_mem hmem,
      unquotePlus_concat hc hpercent hplus, String.toList_ofList]
  · have hmem' : '=' ∉ segment ++ [c] := by
      rw [List.mem_append, List.mem_singleton, not_or]
      exact ⟨hmem, hequals.symm⟩
    rw [decodePair, decodePair, takeWhile_of_not_mem hmem, takeWhile_of_not_mem hmem',
      after_of_not_mem hmem, after_of_not_mem hmem', unquotePlus_concat hc hpercent hplus,
      String.toList_ofList]

example : parseQsl "a=1&b=%E2%82%AC+x&&c" = [("a", "1"), ("b", "€ x"), ("c", "")] := by decide

end Urllib
