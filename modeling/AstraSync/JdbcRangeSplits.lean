import AstraSync.CheckpointStore
import AstraSync.Library.Partitions
import AstraSync.Library.Results
import Mathlib.Algebra.Order.Ring.Rat
import Mathlib.Data.List.Dedup
import Mathlib.Data.List.Sort

namespace AstraSync.JdbcRangeSplits

open CheckpointStore Partitions Results

inductive Cell
  | null
  | scalar (text : String)
  | binary (content : List UInt8)
  deriving DecidableEq

structure SourceRow where
  cells : List Cell
  splitValue : Option ℚ
  deriving DecidableEq

structure Source (K : Type) where
  table : String
  columns : List String
  resumeColumn : String
  splitCount : ℕ
  rows : List SourceRow
  rank : Cell → K
  splitCount_pos : 0 < splitCount

structure SourceSplit where
  splitId : String
  start : ℤ
  stop : Option ℤ
  deriving DecidableEq

inductive SplitError
  | resumeNull
  | resumeNotUnique
  | notAnInteger
  | minimumExceedsMaximum
  deriving DecidableEq

def integral (q : ℚ) : Except SplitError ℤ := if q.den = 1 then .ok q.num else .error .notAnInteger

variable {K : Type} [LinearOrder K] (src : Source K)

def sourceId : String := "jdbc:" ++ src.table

def resumeCell (r : SourceRow) : Cell := ((src.columns.zip r.cells).lookup src.resumeColumn).getD .null

def validateResumeValues (rows values distinct : ℕ) : Except SplitError Unit := do
  check (values = rows) .resumeNull
  check (distinct = rows) .resumeNotUnique

def bound (minimum maximum : ℤ) (count index : ℕ) : ℤ := minimum + (maximum - minimum + 1) * index / count

def rangeCount (minimum maximum : ℤ) : ℕ :=
  let width := maximum - minimum + 1
  if width < src.splitCount then width.toNat else src.splitCount

def ranges (minimum maximum : ℤ) : List SourceSplit :=
  let count := rangeCount src minimum maximum
  (List.range count).map fun index => {
    splitId := sourceId src ++ "-split-" ++ toString index
    start := bound minimum maximum count index
    stop := if index + 1 = count then none else some (bound minimum maximum count (index + 1)) }

def enumerate : Except SplitError (List SourceSplit) := do
  let values := src.rows.filter fun r => resumeCell src r ≠ .null
  validateResumeValues src.rows.length values.length (values.map fun r => src.rank (resumeCell src r)).dedup.length
  match (src.rows.filterMap (·.splitValue)).min?, (src.rows.filterMap (·.splitValue)).max? with
  | some low, some high =>
    let minimum ← integral low
    let maximum ← integral high
    return ranges src minimum maximum
  | _, _ => return []

def selects (split : SourceSplit) (r : SourceRow) : Bool :=
  match r.splitValue with
  | none => false
  | some x => (split.start : ℚ) ≤ x && split.stop.all fun stop => x < (stop : ℚ)

def splitRows (split : SourceSplit) : List SourceRow :=
  (src.rows.filter (selects split)).insertionSort fun a b => src.rank (resumeCell src a) ≤ src.rank (resumeCell src b)

def openAt (split : SourceSplit) (position : SplitPosition) : Option (List SourceRow) :=
  match position with
  | [] => some (splitRows src split)
  | [(column, text)] =>
    if column = src.resumeColumn then
      some ((splitRows src split).filter fun r => src.rank (.scalar text) < src.rank (resumeCell src r))
    else none
  | _ => none

section

theorem bound_zero (minimum maximum : ℤ) (count : ℕ) : bound minimum maximum count 0 = minimum := by
  simp [bound]

variable {minimum maximum : ℤ}

theorem bound_mono (h : minimum ≤ maximum) {count : ℕ} (hcount : 0 < count) :
    Monotone fun i => (bound minimum maximum count i : ℚ) := by
  intro i j hij
  have hwidth : 0 ≤ maximum - minimum + 1 := by omega
  have hmul : (maximum - minimum + 1) * (i : ℤ) ≤ (maximum - minimum + 1) * (j : ℤ) :=
    mul_le_mul_of_nonneg_left (by exact_mod_cast hij) hwidth
  have hdiv := Int.ediv_le_ediv (Int.natCast_pos.mpr hcount) hmul
  simp only [bound, Int.cast_le]
  omega

variable {src}

omit [LinearOrder K] in
theorem rangeCount_pos (h : minimum ≤ maximum) : 0 < rangeCount src minimum maximum := by
  have hpos := src.splitCount_pos
  simp only [rangeCount]
  split_ifs <;> omega

omit [LinearOrder K] in
theorem countP_ranges (h : minimum ≤ maximum) {r : SourceRow} {x : ℚ}
    (hx : r.splitValue = some x) (hle : (minimum : ℚ) ≤ x) :
    (ranges src minimum maximum).countP (selects · r) = 1 := by
  set count := rangeCount src minimum maximum with hcount
  have hwithin : ∀ i, selects { splitId := sourceId src ++ "-split-" ++ toString i
                                start := bound minimum maximum count i
                                stop := if i + 1 = count then none
                                  else some (bound minimum maximum count (i + 1)) } r =
      within (fun i => (bound minimum maximum count i : ℚ)) count x i := by
    intro i
    simp only [selects, hx, within]
    split_ifs with hlast
    · simp [hlast]
    · simp [hlast]
  rw [ranges, List.countP_map]
  simp only [← hcount, Function.comp_def, hwithin]
  refine countP_within (bound_mono h (rangeCount_pos h)) (rangeCount_pos h) ?_
  rw [bound_zero]
  exact hle

omit [LinearOrder K] in
theorem splitId_inj {i j : ℕ} (h : sourceId src ++ "-split-" ++ toString i = sourceId src ++ "-split-" ++ toString j) :
    i = j := by
  have hdigits : Nat.toDigits 10 i = Nat.toDigits 10 j := by
    grind [Nat.toList_repr, String.toList, String.append_right_inj]
  rw [← Nat.ofDigitChars_toDigits (b := 10) (n := i) (by decide) (by decide), hdigits,
    Nat.ofDigitChars_toDigits (by decide) (by decide)]

end

variable {src} {splits : List SourceSplit}

theorem validateResumeValues_ok {rows values distinct : ℕ} :
    validateResumeValues rows values distinct = .ok () ↔ values = rows ∧ distinct = rows := by
  unfold validateResumeValues
  rw [bind_eq_ok]
  simp [check_ok]

theorem nodup_of_dedup_length {α : Type} [DecidableEq α] {l : List α} (h : l.dedup.length = l.length) : l.Nodup :=
  (List.dedup_sublist l).eq_of_length h ▸ List.nodup_dedup l

theorem integral_ok {q : ℚ} {n : ℤ} (h : integral q = .ok n) : (n : ℚ) = q := by
  unfold integral at h
  split_ifs at h with hden
  cases h
  exact Rat.coe_int_num_of_den_eq_one hden

theorem enumerate_ok (h : enumerate src = .ok splits) : (∀ r ∈ src.rows, resumeCell src r ≠ .null) ∧
      (src.rows.map fun r => src.rank (resumeCell src r)).Nodup ∧
      ((splits = [] ∧ ∀ r ∈ src.rows, r.splitValue = none) ∨
        ∃ minimum maximum : ℤ, minimum ≤ maximum ∧ splits = ranges src minimum maximum ∧
          ∀ r ∈ src.rows, ∀ x, r.splitValue = some x → (minimum : ℚ) ≤ x) := by
  obtain ⟨_, hvalid, h⟩ := bind_eq_ok.mp h
  obtain ⟨hvalues, hdistinct⟩ := validateResumeValues_ok.mp hvalid
  have hnull := List.length_filter_eq_length_iff.mp hvalues
  rw [List.filter_eq_self.mpr hnull] at hdistinct
  refine ⟨fun r hr => by simpa using hnull r hr, nodup_of_dedup_length (by simpa using hdistinct), ?_⟩
  cases hlow : (src.rows.filterMap (·.splitValue)).min? with
  | none =>
    rw [hlow] at h
    cases h
    rw [List.min?_eq_none_iff] at hlow
    refine .inl ⟨rfl, fun r hr => ?_⟩
    exact List.filterMap_eq_nil_iff.mp hlow r hr
  | some =>
    obtain ⟨hlowmem, hlowle⟩ := List.min?_eq_some_iff.mp hlow
    cases hhigh : (src.rows.filterMap (·.splitValue)).max? with
    | none => grind
    | some high =>
      obtain ⟨hhighmem, -⟩ := List.max?_eq_some_iff.mp hhigh
      rw [hlow, hhigh] at h
      obtain ⟨minimum, hmin, h⟩ := bind_eq_ok.mp h
      obtain ⟨maximum, hmax, h⟩ := bind_eq_ok.mp h
      cases h
      refine .inr ⟨minimum, maximum, ?_, rfl, ?_⟩
      · have hle := hlowle high hhighmem
        rw [← integral_ok hmin, ← integral_ok hmax] at hle
        exact_mod_cast hle
      · grind [integral_ok]

theorem splitIds_nodup (h : enumerate src = .ok splits) : (splits.map (·.splitId)).Nodup := by
  obtain ⟨-, -, ⟨rfl, -⟩ | ⟨minimum, maximum, -, rfl, -⟩⟩ := enumerate_ok h
  · exact List.nodup_nil
  · rw [ranges, List.map_map]
    exact List.Nodup.map (fun _ _ => splitId_inj) List.nodup_range

theorem countP_splits (h : enumerate src = .ok splits) (hsplit : ∀ r ∈ src.rows, r.splitValue ≠ none) :
    ∀ r ∈ src.rows, splits.countP (selects · r) = 1 := by
  intro r hr
  obtain ⟨-, -, ⟨-, hnone⟩ | ⟨minimum, maximum, hle, rfl, hmin⟩⟩ := enumerate_ok h
  · exact absurd (hnone r hr) (hsplit r hr)
  · obtain ⟨x, hx⟩ := Option.ne_none_iff_exists'.mp (hsplit r hr)
    exact countP_ranges hle hx (hmin r hr x hx)

theorem coe_splitRows (split : SourceSplit) :
    (splitRows src split : Multiset SourceRow) = (src.rows : Multiset SourceRow).filter fun r => selects split r = true := by
  rw [Multiset.filter_coe]
  exact Multiset.coe_eq_coe.mpr (by simpa [splitRows] using List.perm_insertionSort _ _)

theorem sum_splitRows (h : enumerate src = .ok splits) (hsplit : ∀ r ∈ src.rows, r.splitValue ≠ none) :
    (splits.map fun split => (splitRows src split : Multiset SourceRow)).sum = src.rows := by
  simp only [coe_splitRows]
  exact sum_filter_eq (countP_splits h hsplit)

variable {split : SourceSplit}

theorem mem_splitRows {r : SourceRow} (h : r ∈ splitRows src split) : r ∈ src.rows :=
  List.mem_of_mem_filter ((List.mem_insertionSort _).mp h)

theorem splitRows_pairwise (h : enumerate src = .ok splits) (split : SourceSplit) :
    (splitRows src split).Pairwise fun a b => src.rank (resumeCell src a) < src.rank (resumeCell src b) := by
  obtain ⟨-, hunique, -⟩ := enumerate_ok h
  have hperm : (splitRows src split).Perm (src.rows.filter (selects split)) := List.perm_insertionSort _ _
  have hnodup : ((splitRows src split).map fun r => src.rank (resumeCell src r)).Nodup :=
    (hperm.map _).nodup_iff.mpr (hunique.sublist (List.filter_sublist.map _))
  have hle : (splitRows src split).Pairwise fun a b => src.rank (resumeCell src a) ≤ src.rank (resumeCell src b) := by
    have : Std.Total fun a b : SourceRow => src.rank (resumeCell src a) ≤ src.rank (resumeCell src b) :=
      ⟨fun _ _ => le_total _ _⟩
    have : IsTrans SourceRow fun a b => src.rank (resumeCell src a) ≤ src.rank (resumeCell src b) :=
      ⟨fun _ _ _ => le_trans⟩
    exact List.pairwise_insertionSort _ _
  exact (hle.and (List.pairwise_map.mp hnodup)).imp fun hab => lt_of_le_of_ne hab.1 hab.2

theorem openAt_after (h : enumerate src = .ok splits) {before after : List SourceRow}
    {r : SourceRow} (hrows : splitRows src split = before ++ r :: after) {text : String}
    (hcell : resumeCell src r = .scalar text) : openAt src split [(src.resumeColumn, text)] = some after := by
  have hfilter := filter_exceeds (fun r => src.rank (resumeCell src r)) (splitRows_pairwise h split) hrows
  rw [hcell] at hfilter
  simp only [openAt, if_pos]
  rw [hfilter]

end AstraSync.JdbcRangeSplits
