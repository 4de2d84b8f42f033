import Mathlib.Data.Nat.Digits.Lemmas
import Mathlib.Data.List.Basic

namespace AstraSync.ByteStrings

abbrev Bytes := List UInt8

instance bytesLawfulBEq : LawfulBEq Bytes := List.instLawfulBEq

def lit (s : String) : Bytes := s.toList.map (fun c => UInt8.ofNat c.toNat)

def slash : UInt8 := 47

def trimSuffix (s suffix : Bytes) : Bytes :=
  if suffix <:+ s then s.take (s.length - suffix.length) else s

@[simp] theorem trimSuffix_append (s suffix : Bytes) : trimSuffix (s ++ suffix) suffix = s := by
  simp [trimSuffix]

theorem trimSuffix_of_not {s suffix : Bytes} (h : ¬ suffix <:+ s) : trimSuffix s suffix = s :=
  if_neg h

def split (sep : UInt8) (s : Bytes) : List Bytes := s.splitOn sep

def join (sep : UInt8) (parts : List Bytes) : Bytes := [sep].intercalate parts

theorem join_split (sep : UInt8) (s : Bytes) : join sep (split sep s) = s :=
  List.intercalate_splitOn sep

theorem split_append (sep : UInt8) (a b : Bytes) : split sep (a ++ sep :: b) = split sep a ++ split sep b :=
  List.splitOn_append_cons_self a b

theorem split_single {sep : UInt8} {s : Bytes} (h : sep ∉ s) : split sep s = [s] :=
  List.splitOn_eq_singleton h

theorem not_mem_of_mem_split {sep : UInt8} {s part : Bytes} (h : part ∈ split sep s) : sep ∉ part := by
  induction s generalizing part with
  | nil => simp_all [split]
  | cons b s ih =>
    simp only [split] at ih h
    rw [List.splitOn_cons_eq_if_modifyHead] at h
    obtain ⟨first, rest, hparts⟩ := List.exists_cons_of_ne_nil (List.splitOn_ne_nil sep s)
    rw [hparts] at h ih
    by_cases hb : b = sep
    · rw [if_pos (beq_iff_eq.mpr hb)] at h
      rcases List.mem_cons.mp h with rfl | h
      · exact List.not_mem_nil
      · exact ih h
    · have hcase : part = b :: first ∨ part ∈ rest := by simpa [hb] using h
      rcases hcase with rfl | hmem
      · exact List.not_mem_cons_of_ne_of_not_mem (Ne.symm hb) (ih List.mem_cons_self)
      · exact ih (by simp [hmem])

theorem join_concat (sep : UInt8) {parts : List Bytes} (last : Bytes) (h : parts ≠ []) :
    join sep (parts ++ [last]) = join sep parts ++ sep :: last := by
  induction parts with
  | nil => exact absurd rfl h
  | cons part parts ih =>
    cases parts with
    | nil => simp [join]
    | cons =>
      have hrest := ih (by simp)
      simp only [join, List.cons_append, List.intercalate_cons_cons] at hrest ⊢
      rw [hrest]
      simp

theorem sep_cancel {sep : UInt8} {a b x y : Bytes} (hx : sep ∉ x) (hy : sep ∉ y)
    (h : a ++ sep :: x = b ++ sep :: y) : a = b ∧ x = y := by
  have hsplit : split sep a ++ [x] = split sep b ++ [y] := by
    rw [← split_single hx, ← split_single hy, ← split_append, ← split_append, h]
  obtain ⟨hab, hxy⟩ := List.append_inj' hsplit rfl
  rw [← join_split sep a, hab, join_split]
  exact ⟨rfl, List.singleton_inj.mp hxy⟩

theorem sep_cancel_first {sep : UInt8} {a b x y : Bytes} (ha : sep ∉ a) (hb : sep ∉ b)
    (h : a ++ sep :: x = b ++ sep :: y) : a = b ∧ x = y := by
  have hsplit : split sep a ++ split sep x = split sep b ++ split sep y := by
    rw [← split_append, ← split_append, h]
  rw [split_single ha, split_single hb] at hsplit
  have hab : a = b := List.head_eq_of_cons_eq hsplit
  subst hab
  exact ⟨rfl, List.cons_inj_right sep |>.mp (List.append_cancel_left h)⟩

def digit (d : ℕ) : UInt8 := UInt8.ofNat (48 + d)

def isDigit (b : UInt8) : Bool := 48 ≤ b && b ≤ 57

def digitValue (b : UInt8) : ℕ := b.toNat - 48

theorem isDigit_digit {d : ℕ} (h : d < 10) : isDigit (digit d) = true := by
  interval_cases d <;> rfl

theorem digitValue_digit {d : ℕ} (h : d < 10) : digitValue (digit d) = d := by
  interval_cases d <;> rfl

def decimal (n : ℕ) : Bytes :=
  if n = 0 then [digit 0] else (Nat.digits 10 n).reverse.map digit

def padded (width n : ℕ) : Bytes :=
  List.replicate (width - (decimal n).length) (digit 0) ++ decimal n

def numeral (s : Bytes) : ℕ := s.foldl (fun v b => 10 * v + digitValue b) 0

theorem numeral_map_digit (ds : List ℕ) (h : ∀ d ∈ ds, d < 10) :
    numeral (ds.reverse.map digit) = Nat.ofDigits 10 ds := by
  rw [numeral, List.foldl_map, List.foldl_reverse, Nat.ofDigits_eq_foldr]
  induction ds with
  | nil => rfl
  | cons d ds ih =>
    simp only [List.foldr_cons, Nat.cast_id] at ih ⊢
    rw [ih (fun e he => h e (List.mem_cons_of_mem _ he)), digitValue_digit (h d (by simp))]
    ring

theorem numeral_decimal (n : ℕ) : numeral (decimal n) = n := by
  unfold decimal
  split_ifs with h
  · subst h; rfl
  · rw [numeral_map_digit _ (fun d hd => Nat.digits_lt_base (by norm_num) hd), Nat.ofDigits_digits]

theorem numeral_zeros (k : ℕ) (s : Bytes) : numeral (List.replicate k (digit 0) ++ s) = numeral s := by
  induction k with
  | zero => rfl
  | succ k ih => simpa [numeral, List.replicate_succ, digitValue_digit] using ih

theorem numeral_padded (width n : ℕ) : numeral (padded width n) = n := by
  rw [padded, numeral_zeros, numeral_decimal]

theorem padded_injective (width : ℕ) : Function.Injective (padded width) :=
  fun m n h => by rw [← numeral_padded width m, h, numeral_padded]

theorem decimal_digits (n : ℕ) : ∀ b ∈ decimal n, isDigit b = true := by
  unfold decimal
  split_ifs with h
  · simp [isDigit_digit]
  · intro b hb
    obtain ⟨d, hd, rfl⟩ := List.mem_map.mp hb
    exact isDigit_digit (Nat.digits_lt_base (by norm_num) (List.mem_reverse.mp hd))

theorem padded_digits (width n : ℕ) : ∀ b ∈ padded width n, isDigit b = true := by
  intro b hb
  rcases List.mem_append.mp hb with hb | hb
  · rw [List.eq_of_mem_replicate hb]; exact isDigit_digit (by norm_num)
  · exact decimal_digits n b hb

theorem decimal_ne_nil (n : ℕ) : decimal n ≠ [] := by
  unfold decimal
  split_ifs with h
  · simp
  · simp [Nat.digits_ne_nil_iff_ne_zero, h]

theorem padded_ne_nil (width n : ℕ) : padded width n ≠ [] := by
  simp [padded, decimal_ne_nil]

def lower (b : UInt8) : UInt8 := if 65 ≤ b ∧ b ≤ 90 then b + 32 else b

def digit36 (d : ℕ) : UInt8 := if d < 10 then UInt8.ofNat (48 + d) else UInt8.ofNat (87 + d)

def digit36Value (b : UInt8) : ℕ := if b.toNat < 87 then b.toNat - 48 else b.toNat - 87

theorem digit36Value_digit36 {d : ℕ} (h : d < 36) : digit36Value (digit36 d) = d := by
  interval_cases d <;> rfl

def base36 (n : ℕ) : Bytes := (Nat.digits 36 n).reverse.map digit36

theorem base36_injective : Function.Injective base36 := by
  intro m n h
  have hvalues (k : ℕ) : ((base36 k).map digit36Value).reverse = Nat.digits 36 k := by
    rw [base36, List.map_map, ← List.map_reverse, List.reverse_reverse]
    refine (List.map_congr_left fun d hd => ?_).trans (List.map_id _)
    exact digit36Value_digit36 (Nat.digits_lt_base (by norm_num) hd)
  exact Nat.digits.injective 36 (by rw [← hvalues m, ← hvalues n, h])

theorem not_mem_base36 {b : UInt8} (hb : b.toNat < 48) (n : ℕ) : b ∉ base36 n := by
  intro hmem
  obtain ⟨d, hd, rfl⟩ := List.mem_map.mp hmem
  have hlt : d < 36 := Nat.digits_lt_base (by norm_num) (List.mem_reverse.mp hd)
  interval_cases d <;> exact absurd hb (by decide)

def skipSpace : Bytes → Bytes
  | 0xC2 :: b :: s => if b = 0x85 ∨ b = 0xA0 then skipSpace s else 0xC2 :: b :: s
  | 0xE1 :: 0x9A :: 0x80 :: s => skipSpace s
  | 0xE2 :: 0x80 :: b :: s =>
    if (0x80 ≤ b ∧ b ≤ 0x8A) ∨ b = 0xA8 ∨ b = 0xA9 ∨ b = 0xAF then skipSpace s else 0xE2 :: 0x80 :: b :: s
  | 0xE2 :: 0x81 :: 0x9F :: s => skipSpace s
  | 0xE3 :: 0x80 :: 0x80 :: s => skipSpace s
  | b :: s => if b = 32 ∨ (9 ≤ b ∧ b ≤ 13) then skipSpace s else b :: s
  | [] => []

def blank (s : Bytes) : Bool := skipSpace s = []

theorem skipSpace_digit {b : UInt8} {s : Bytes} (h : isDigit b = true) : skipSpace (b :: s) = b :: s := by
  simp only [isDigit, Bool.and_eq_true, decide_eq_true_eq] at h
  obtain ⟨hlo, hhi⟩ := h
  have hspace : ¬ (b = 32 ∨ (9 ≤ b ∧ b ≤ 13)) := by
    rintro (rfl | ⟨-, h⟩)
    · exact absurd hlo (by decide)
    · exact absurd (UInt8.le_trans hlo h) (by decide)
  unfold skipSpace
  split <;> simp_all

end AstraSync.ByteStrings
