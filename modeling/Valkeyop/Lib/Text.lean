import Mathlib.Data.List.Basic
import Mathlib.Data.List.Infix
import Mathlib.Data.List.TakeWhile

/-!
# Text, as Go's `strings` and `strconv` read it

The few routines of Go's standard library the parsers and the naming rules are
written with, over a string's list of characters, and the facts that make a
decimal number survive being printed into a longer text: its digits parse back
to it, and no digit is a separator. Texts that are joined with a separator they
do not hold come apart again.
-/

namespace Valkeyop.Lib.Text

/-- `unicode.IsSpace`. -/
def isSpace (c : Char) : Bool :=
  let n := c.toNat
  (0x09 ≤ n && n ≤ 0x0d) || n == 0x20 || n == 0x85 || n == 0xa0 || n == 0x1680 ||
    (0x2000 ≤ n && n ≤ 0x200a) || n == 0x2028 || n == 0x2029 || n == 0x202f ||
    n == 0x205f || n == 0x3000

/-- `strings.Fields`: the maximal runs of characters that are not spaces. -/
def fields (s : String) : List String :=
  ((s.toList.splitOnP isSpace).filter fun f => !f.isEmpty).map String.ofList

/-- `strings.Split` at a one-character separator. -/
def split (sep : Char) (s : String) : List String :=
  (s.toList.splitOn sep).map String.ofList

/-- `strings.Cut` at a one-character separator: the text before and after its
first occurrence. -/
def cut (sep : Char) (s : String) : Option (String × String) :=
  match s.toList.dropWhile (· != sep) with
  | [] => none
  | _ :: rest => some (String.ofList (s.toList.takeWhile (· != sep)), String.ofList rest)

/-- `strings.Contains`. -/
def contains (s sub : String) : Bool := decide (sub.toList <:+: s.toList)

/-- `strings.TrimSpace`. -/
def trimSpace (s : String) : String :=
  String.ofList (((s.toList.dropWhile isSpace).reverse.dropWhile isSpace).reverse)

/-- A non-empty run of decimal digits. -/
def decimal (ds : List Char) : Option Nat :=
  if ds ≠ [] ∧ ds.all Char.isDigit then some (Nat.ofDigitChars 10 ds 0) else none

/-- The integer a text spells: an optional sign and a run of digits. -/
def integer (s : String) : Option Int :=
  match s.toList with
  | '-' :: ds => (decimal ds).map fun n => -(n : Int)
  | '+' :: ds => (decimal ds).map Int.ofNat
  | ds => (decimal ds).map Int.ofNat

/-- The bounds of an `int` of 64 bits. -/
def minInt : Int := -9223372036854775808

def maxInt : Int := 9223372036854775807

/-- `strconv.Atoi`, which fails on an integer that does not fit an `int`. -/
def atoi (s : String) : Option Int :=
  (integer s).filter fun n => decide (minInt ≤ n ∧ n ≤ maxInt)

/-- The number `strconv.Atoi` returns beside its error: 0 for a text that spells no
integer, and the nearest `int` for one that does not fit. -/
def atoiValue (s : String) : Int := max minInt (min maxInt ((integer s).getD 0))

/-- What `fields` can return. -/
def Token (s : String) : Prop := s ≠ "" ∧ ∀ c ∈ s.toList, isSpace c = false

theorem noSpace_of_all {s : String} (h : s.toList.all (!isSpace ·) = true) :
    ∀ c ∈ s.toList, isSpace c = false := by
  simpa using h

/-- The characters of a literal are read off without decoding it. -/
theorem not_mem_literal {c : Char} {cs : List Char} (hc : c ∉ cs) :
    c ∉ (String.ofList cs).toList := by
  rwa [String.toList_ofList]

theorem not_mem_append {c : Char} {a b : String} (ha : c ∉ a.toList) (hb : c ∉ b.toList) :
    c ∉ (a ++ b).toList := by
  rw [String.toList_append]
  exact List.not_mem_append ha hb

/-! ## Decimal numbers inside longer texts -/

theorem toList_toString (n : Nat) : (toString n).toList = Nat.toDigits 10 n := by
  rw [Nat.toString_eq_repr, Nat.toList_repr]

theorem isDigit_of_mem_toString {n : Nat} {c : Char} (hc : c ∈ (toString n).toList) :
    c.isDigit := by
  rw [toList_toString] at hc
  exact Nat.isDigit_of_mem_toDigits (by decide) (by decide) hc

theorem not_mem_toString {n : Nat} {c : Char} (hc : c.isDigit = false) :
    c ∉ (toString n).toList :=
  fun hmem => by rw [isDigit_of_mem_toString hmem] at hc; cases hc

theorem toString_ne_nil (n : Nat) : (toString n).toList ≠ [] := by
  rw [toList_toString]
  exact Nat.toDigits_ne_nil

theorem decimal_toString (n : Nat) : decimal (toString n).toList = some n := by
  rw [decimal, if_pos]
  · rw [toList_toString, Nat.ofDigitChars_ten_toDigits]
  · exact ⟨toString_ne_nil n, List.all_eq_true.2 fun c hc => isDigit_of_mem_toString hc⟩

theorem integer_toString (n : Nat) : integer (toString n) = some (n : Int) := by
  have hd := decimal_toString n
  have hdig : ∀ c ∈ (toString n).toList, c.isDigit = true :=
    fun c hc => isDigit_of_mem_toString hc
  rw [integer]
  -- A sign is not a digit, so neither of the signed readings applies.
  split
  · next ds heq => exact absurd (hdig '-' (by rw [heq]; simp)) (by decide)
  · next ds heq => exact absurd (hdig '+' (by rw [heq]; simp)) (by decide)
  · rw [hd]; rfl

theorem toString_injective {m n : Nat} (h : toString m = toString n) : m = n := by
  have hm := integer_toString m
  rw [h, integer_toString] at hm
  exact (Int.ofNat.inj (Option.some.inj hm)).symm

theorem toList_toString_negSucc (m : Nat) :
    (toString (Int.negSucc m)).toList = '-' :: (toString (m + 1)).toList :=
  String.toList_append

theorem integer_toString_int (n : Int) : integer (toString n) = some n := by
  cases n with
  | ofNat m => exact integer_toString m
  | negSucc m =>
      rw [integer, toList_toString_negSucc]
      simp only [decimal_toString]
      rfl

theorem toString_int_injective {m n : Int} (h : toString m = toString n) : m = n := by
  have hm := integer_toString_int m
  rw [h, integer_toString_int] at hm
  exact (Option.some.inj hm).symm

theorem minInt_le_zero : minInt ≤ 0 := by decide

/-- A number that is not negative is read back exactly when it fits. -/
theorem atoi_toString_iff {n : Int} (hn : 0 ≤ n) : atoi (toString n) = some n ↔ n ≤ maxInt := by
  have hmin : minInt ≤ n := Int.le_trans minInt_le_zero hn
  rw [atoi, integer_toString_int]
  simp [hmin]

example : atoi "9223372036854775807" = some maxInt ∧ atoi "9223372036854775808" = none := by
  decide +kernel

theorem atoi_toString {n : Nat} (hn : (n : Int) ≤ maxInt) : atoi (toString n) = some (n : Int) :=
  (atoi_toString_iff (Int.natCast_nonneg n)).2 hn

theorem atoiValue_toString (n : Nat) : atoiValue (toString n) = min maxInt n := by
  have hmin : minInt ≤ min maxInt n :=
    Int.le_trans minInt_le_zero (Int.le_min.2 ⟨by decide, Int.natCast_nonneg n⟩)
  rw [atoiValue, integer_toString, Option.getD_some, Int.max_eq_right hmin]

theorem not_mem_toString_int {n : Int} {c : Char} (hc : c.isDigit = false) (hminus : c ≠ '-') :
    c ∉ (toString n).toList := by
  cases n with
  | ofNat m => exact not_mem_toString (n := m) hc
  | negSucc m =>
      rw [toList_toString_negSucc, List.mem_cons, not_or]
      exact ⟨hminus, not_mem_toString hc⟩

/-- The digits of a number printed before a character that is not a digit are
exactly the leading run of digits. -/
theorem takeWhile_digits (n : Nat) {c : Char} (hc : c.isDigit = false) (rest : List Char) :
    ((toString n).toList ++ c :: rest).takeWhile Char.isDigit = (toString n).toList := by
  rw [List.takeWhile_append_of_pos fun a ha => isDigit_of_mem_toString ha]
  simp [hc]

section

variable {c : Char} {a b x y : List Char}

theorem bne_of_not_mem (hc : c ∉ a) : ∀ d ∈ a, (d != c) = true :=
  fun _ hd => bne_iff_ne.2 fun heq => hc (heq ▸ hd)

theorem takeWhile_bne (hc : c ∉ a) (x : List Char) : (a ++ c :: x).takeWhile (· != c) = a := by
  rw [List.takeWhile_append_of_pos (bne_of_not_mem hc)]
  simp

/-- There is one way to cut a text at the first `c`. -/
theorem append_cons_inj (ha : c ∉ a) (hb : c ∉ b) (h : a ++ c :: x = b ++ c :: y) :
    a = b ∧ x = y := by
  have hab := congrArg (List.takeWhile (· != c)) h
  rw [takeWhile_bne ha, takeWhile_bne hb] at hab
  subst hab
  exact ⟨rfl, (List.cons.inj (List.append_cancel_left h)).2⟩

/-- And one at the last. -/
theorem append_cons_inj_last (hx : c ∉ x) (hy : c ∉ y) (h : a ++ c :: x = b ++ c :: y) :
    a = b ∧ x = y := by
  have hrev : x.reverse ++ c :: a.reverse = y.reverse ++ c :: b.reverse := by
    simpa using congrArg List.reverse h
  obtain ⟨hxy, hab⟩ := append_cons_inj (by simpa using hx) (by simpa using hy) hrev
  exact ⟨List.reverse_injective hab, List.reverse_injective hxy⟩

/-- Two numbers printed before a character that is not a digit agree as soon
as the texts do. -/
theorem digits_append_inj {m n : Nat} (hc : c.isDigit = false)
    (h : (toString m).toList ++ c :: x = (toString n).toList ++ c :: y) : m = n ∧ x = y := by
  obtain ⟨hdigits, hrest⟩ := append_cons_inj (not_mem_toString hc) (not_mem_toString hc) h
  exact ⟨toString_injective (String.toList_inj.1 hdigits), hrest⟩

/-- And printed after one. -/
theorem append_digits_inj {m n : Nat} (hc : c.isDigit = false)
    (h : a ++ c :: (toString m).toList = b ++ c :: (toString n).toList) : a = b ∧ m = n := by
  obtain ⟨hrest, hdigits⟩ := append_cons_inj_last (not_mem_toString hc) (not_mem_toString hc) h
  exact ⟨hrest, toString_injective (String.toList_inj.1 hdigits)⟩

end

/-- No digit is a space. -/
theorem isSpace_digit {c : Char} (hc : c.isDigit = true) : isSpace c = false := by
  have hrange : 48 ≤ c.toNat ∧ c.toNat ≤ 57 := Char.isDigit_iff_toNat.1 hc
  simp only [isSpace, Bool.or_eq_false_iff, Bool.and_eq_false_iff, decide_eq_false_iff_not,
    beq_eq_false_iff_ne]
  omega

/-- What stands before a separator and what stands after it. -/
theorem cut_append {sep : Char} {a b : String} (ha : sep ∉ a.toList) :
    cut sep (a ++ String.singleton sep ++ b) = some (a, b) := by
  have htext : (a ++ String.singleton sep ++ b).toList = a.toList ++ sep :: b.toList := by simp
  rw [cut, htext, List.dropWhile_append_of_pos (bne_of_not_mem ha), takeWhile_bne ha]
  simp

theorem cut_eq_none {sep : Char} {s : String} (hs : sep ∉ s.toList) : cut sep s = none := by
  have hdrop : s.toList.dropWhile (· != sep) = [] :=
    List.dropWhile_eq_nil_iff.2 (bne_of_not_mem hs)
  rw [cut, hdrop]

/-- What stands before the first separator has none, and so has a text without any. -/
theorem not_mem_fst_cut (sep : Char) (s : String) :
    sep ∉ ((cut sep s).getD (s, "")).1.toList := by
  unfold cut
  split
  · next hdrop =>
      intro hmem
      exact absurd rfl (bne_iff_ne.1 (List.dropWhile_eq_nil_iff.1 hdrop sep hmem))
  · intro hmem
    rw [Option.getD_some, String.toList_ofList] at hmem
    have hne : (sep != sep) = true := List.mem_takeWhile_imp (p := (· != sep)) hmem
    exact absurd rfl (bne_iff_ne.1 hne)

/-! ## Line ends -/

/-- The carriage return of a line goes, and nothing else if there is no space. -/
theorem trimSpace_append_cr {s : String} (h : ∀ c ∈ s.toList, isSpace c = false) :
    trimSpace (s ++ "\r") = s := by
  have hdrop : ∀ (l t : List Char), (∀ c ∈ l, isSpace c = false) → l ≠ [] →
      (l ++ t).dropWhile isSpace = l ++ t := by
    intro l t hl hne
    cases l with
    | nil => exact absurd rfl hne
    | cons c l => exact List.dropWhile_cons_of_neg (by simp [hl c (by simp)])
  rw [trimSpace, String.toList_append]
  by_cases hnil : s.toList = []
  · rw [hnil, String.toList_inj.1 (hnil.trans (by rfl : [] = "".toList))]
    decide
  · rw [hdrop _ _ h hnil, List.reverse_append]
    have hcr : ("\r".toList.reverse ++ s.toList.reverse).dropWhile isSpace =
        s.toList.reverse.dropWhile isSpace := rfl
    rw [hcr, ← List.append_nil s.toList.reverse, hdrop _ _ (by simpa using h) (by simpa using hnil),
      List.append_nil, List.reverse_reverse, String.ofList_toList]

/-! ## Joined texts -/

section

variable {sep : String} {c : Char} {l : List String}

theorem toList_intercalate_cons (hsep : sep.toList = [c]) (a b : String) (l : List String) :
    (sep.intercalate (a :: b :: l)).toList =
      a.toList ++ c :: (sep.intercalate (b :: l)).toList := by
  rw [String.intercalate_cons_cons]
  simp [hsep]

theorem mem_toList_intercalate (hsep : sep.toList = [c]) {d : Char}
    (hd : d ∈ (sep.intercalate l).toList) : d = c ∨ ∃ s ∈ l, d ∈ s.toList := by
  induction l with
  | nil => cases hd
  | cons a l ih =>
      cases l with
      | nil =>
          rw [String.intercalate_singleton] at hd
          exact .inr ⟨a, List.mem_cons_self, hd⟩
      | cons b l =>
          rw [toList_intercalate_cons hsep, List.mem_append, List.mem_cons] at hd
          rcases hd with hd | hd | hd
          · exact .inr ⟨a, List.mem_cons_self, hd⟩
          · exact .inl hd
          · exact (ih hd).imp_right fun ⟨s, hs, hmem⟩ => ⟨s, List.mem_cons_of_mem _ hs, hmem⟩

/-- A text without the character lies on one side of it. -/
theorem infix_append_cons {sub a b : List Char} (hc : c ∉ sub) :
    sub <:+: a ++ c :: b ↔ sub <:+: a ∨ sub <:+: b := by
  constructor
  · intro h
    rcases List.infix_append_iff.1 h with h | h | ⟨l₁, l₂, rfl, h₁, h₂⟩
    · exact .inl h
    · rcases List.infix_cons_iff.1 h with h | h
      · rcases List.prefix_cons_iff.1 h with rfl | ⟨t, rfl, -⟩
        · exact .inl List.nil_infix
        · exact absurd List.mem_cons_self hc
      · exact .inr h
    · rcases List.prefix_cons_iff.1 h₂ with rfl | ⟨t, rfl, -⟩
      · rw [List.append_nil]
        exact .inl h₁.isInfix
      · exact absurd (List.mem_append_right _ List.mem_cons_self) hc
  · intro h
    rcases h with h | h
    · exact h.trans (List.infix_append' [] a _)
    · exact h.trans ((List.suffix_cons c b).isInfix.trans (List.suffix_append a _).isInfix)

theorem split_intercalate (hsep : sep.toList = [c]) (hl : ∀ s ∈ l, c ∉ s.toList)
    (hne : l ≠ []) : split c (sep.intercalate l) = l := by
  rw [split, String.toList_intercalate, hsep, List.splitOn_intercalate, List.map_map]
  · simp [Function.comp_def]
  · intro cs hcs
    obtain ⟨s, hs, rfl⟩ := List.mem_map.1 hcs
    exact hl s hs
  · simpa using hne

/-- The lines one after the other, each with its newline. -/
def unlines (lines : List String) : String :=
  lines.foldr (fun line rest => line ++ "\n" ++ rest) ""

theorem unlines_cons (s : String) (l : List String) :
    unlines (s :: l) = s ++ "\n" ++ unlines l := rfl

theorem unlines_append (l l' : List String) : unlines (l ++ l') = unlines l ++ unlines l' := by
  induction l with
  | nil => exact String.empty_append.symm
  | cons s l ih => rw [List.cons_append, unlines_cons, unlines_cons, ih, ← String.append_assoc]

theorem unlines_injective : ∀ {l l' : List String}, (∀ s ∈ l, '\n' ∉ s.toList) →
    (∀ s ∈ l', '\n' ∉ s.toList) → unlines l = unlines l' → l = l'
  | [], [], _, _, _ => rfl
  | [], s :: l', _, _, h => by
      have := congrArg String.toList h
      simp [unlines] at this
  | s :: l, [], _, _, h => by
      have := congrArg String.toList h
      simp [unlines] at this
  | s :: l, s' :: l', hl, hl', h => by
      have htext : s.toList ++ '\n' :: (unlines l).toList =
          s'.toList ++ '\n' :: (unlines l').toList := by
        simpa [unlines] using congrArg String.toList h
      obtain ⟨hs, hrest⟩ := append_cons_inj (hl s (by simp)) (hl' s' (by simp)) htext
      rw [String.toList_inj.1 hs, unlines_injective (fun t ht => hl t (by simp [ht]))
        (fun t ht => hl' t (by simp [ht])) (String.toList_inj.1 hrest)]

theorem fields_token {s : String} (h : Token s) : fields s = [s] := by
  have hne : s.toList ≠ [] := fun hnil => h.1 (String.toList_inj.1 hnil)
  rw [fields, List.splitOnP_eq_singleton h.2]
  simp [hne]

theorem fields_intercalate (hsep : sep.toList = [c]) (hc : isSpace c = true)
    (l : List String) : fields (sep.intercalate l) = l.flatMap fields := by
  induction l with
  | nil => rfl
  | cons a l ih =>
      cases l with
      | nil => simp
      | cons b l =>
          rw [fields, toList_intercalate_cons hsep, List.splitOnP_append_cons _ _ hc,
            List.filter_append, List.map_append, List.flatMap_cons, ← ih]
          rfl

theorem fields_intercalate_tokens (hsep : sep.toList = [c]) (hc : isSpace c = true)
    (hl : ∀ s ∈ l, Token s) : fields (sep.intercalate l) = l := by
  rw [fields_intercalate hsep hc, List.flatMap_congr fun s hs => fields_token (hl s hs)]
  simp

/-- A text that does not hold the separator is found in a part or not at all. -/
theorem contains_intercalate (hsep : sep.toList = [c]) {sub : String} (hsub : sub ≠ "")
    (hc : c ∉ sub.toList) :
    contains (sep.intercalate l) sub = true ↔ ∃ s ∈ l, contains s sub = true := by
  induction l with
  | nil =>
      have hne : sub.toList ≠ [] := fun hnil => hsub (String.toList_inj.1 hnil)
      simp [contains, hne]
  | cons a l ih =>
      cases l with
      | nil => simp
      | cons b l =>
          rw [List.exists_mem_cons_iff, ← ih, contains, decide_eq_true_iff,
            toList_intercalate_cons hsep, infix_append_cons hc]
          simp only [contains, decide_eq_true_iff]

end

end Valkeyop.Lib.Text
