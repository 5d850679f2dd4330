/-
# ASCII text

Whatever the tables of characters say elsewhere, on ASCII text they agree with the ASCII tables: so
what is computed from such a text can be computed with these.

* `AsciiLaws` : the agreement;
* `strip_ascii`, `split_ascii` : the operations on ASCII text;
* `map_toList_cons`, `map_map_toList_cons` : the characters of listed literals, one at a time.
-/
import ProcureSignal.Library.Unicode

namespace Unicode

/-- All characters are ASCII characters. -/
def IsAscii (s : String) : Prop := ∀ c ∈ s.toList, c.toNat < 0x80

instance (s : String) : Decidable (IsAscii s) :=
  decidable_of_iff (s.toList.all (fun c => decide (c.toNat < 0x80)) = true) <| by
    simp only [List.all_eq_true, decide_eq_true_eq, IsAscii]

/-- The tables agree with those of ASCII. -/
structure AsciiLaws (U : Unicode) : Prop where
  isSpace : ∀ c, c.toNat < 0x80 → U.isSpace c = asciiSpace c
  lower : ∀ s, IsAscii s → U.lower s = Unicode.ascii.lower s

theorem ascii_asciiLaws : ascii.AsciiLaws := ⟨fun _ _ => rfl, fun _ _ => rfl⟩

theorem strip_subset {U : Unicode} (s : String) : (U.strip s).toList ⊆ s.toList := by
  rw [strip, String.toList_ofList]
  exact fun c hc => (List.dropWhile_suffix _).subset ((List.rdropWhile_prefix _ _).subset hc)

theorem IsAscii.strip {U : Unicode} {s : String} (h : IsAscii s) : IsAscii (U.strip s) :=
  fun c hc => h c (strip_subset s hc)

theorem IsAscii.lower {s : String} (h : IsAscii s) : IsAscii (ascii.lower s) := by
  intro c hc
  rw [ascii, String.toList_ofList] at hc
  obtain ⟨d, hd, rfl⟩ := List.mem_map.mp hc
  by_cases hupper : 65 ≤ d.toNat ∧ d.toNat ≤ 90
  · rw [toNat_asciiLower hupper]
    omega
  · rw [asciiLower, if_neg hupper]
    exact h d hd

theorem dropWhile_congr {α : Type*} {p q : α → Bool} {l : List α} (h : ∀ a ∈ l, p a = q a) :
    l.dropWhile p = l.dropWhile q := by
  induction l with
  | nil => rfl
  | cons a l ih =>
      rw [List.dropWhile_cons, List.dropWhile_cons, h a List.mem_cons_self,
        ih fun b hb => h b (List.mem_cons_of_mem a hb)]

theorem splitOnP_congr {α : Type*} {p q : α → Bool} {l : List α} (h : ∀ a ∈ l, p a = q a) :
    l.splitOnP p = l.splitOnP q := by
  induction l with
  | nil => rfl
  | cons a l ih =>
      rw [List.splitOnP_cons_eq_if_modifyHead, List.splitOnP_cons_eq_if_modifyHead,
        h a List.mem_cons_self, ih fun b hb => h b (List.mem_cons_of_mem a hb)]

/-- Stripping, on characters. -/
theorem strip_of_toList {U : Unicode} {s : String} {cs : List Char} (h : s.toList = cs) :
    U.strip s = String.ofList ((cs.dropWhile U.isSpace).rdropWhile U.isSpace) := by
  rw [strip, h]

/-- Lower case, on characters. -/
theorem toList_lower_ascii (s : String) : (ascii.lower s).toList = s.toList.map asciiLower :=
  String.toList_ofList

section Operations

variable {U : Unicode} (laws : U.AsciiLaws) {s : String} (h : IsAscii s)

include laws h

theorem strip_ascii : U.strip s = ascii.strip s := by
  have hspace : ∀ c ∈ s.toList, U.isSpace c = ascii.isSpace c := fun c hc => laws.isSpace c (h c hc)
  have hfront := dropWhile_congr hspace
  rw [strip, strip, hfront, List.rdropWhile, List.rdropWhile]
  refine congrArg (String.ofList ∘ List.reverse) (dropWhile_congr fun c hc => hspace c ?_)
  exact (List.dropWhile_suffix _).subset (List.mem_reverse.mp hc)

theorem split_ascii : U.split s = ascii.split s := by
  rw [split, split, splitOnP_congr fun c hc => laws.isSpace c (h c hc)]
  rfl

end Operations

/-! ### Literals -/

/-- The characters of a listed text; applied to a literal it reads the characters off. -/
theorem map_toList_cons {cs : List Char} {names : List String} {l : List (List Char)}
    (h : names.map String.toList = l) :
    (String.ofList cs :: names).map String.toList = cs :: l := by
  rw [List.map_cons, String.toList_ofList, h]

/-- The characters of two literals that are put together. -/
theorem toList_append_literals {cs ds : List Char} :
    (String.ofList cs ++ String.ofList ds).toList = cs ++ ds := by
  rw [String.toList_append, String.toList_ofList, String.toList_ofList]

theorem map_map_toList_cons {names : List String} {groups : List (List String)}
    {cs : List (List Char)} {l : List (List (List Char))} (h : names.map String.toList = cs)
    (hs : groups.map (·.map String.toList) = l) :
    (names :: groups).map (·.map String.toList) = cs :: l := by
  rw [List.map_cons, h, hs]

end Unicode
