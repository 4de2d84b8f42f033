import Mathlib.Algebra.Order.Field.Rat
import Mathlib.Data.Int.Log
import Mathlib.Data.Rat.Floor

namespace AstraSync.AdaptiveBatch

def halfEven (q : ℚ) : ℤ :=
  if q - ⌊q⌋ < 1 / 2 ∨ q - ⌊q⌋ = 1 / 2 ∧ ⌊q⌋ % 2 = 0 then ⌊q⌋ else ⌊q⌋ + 1

def ulp (q : ℚ) : ℤ := max (-1074) (Int.log 2 q - 52)

/-- The nearest value of Java's `double`, for numbers that are neither negative nor beyond its range. -/
def double (q : ℚ) : ℚ := halfEven (q / 2 ^ ulp q) * 2 ^ ulp q

structure AdaptiveBatchPolicy where
  (minBatchRecords initialBatchRecords : Int32)
  targetBatchNanos : Int64
  adjustmentCooldownSamples : Int32
  min_pos : 0 < minBatchRecords
  min_le_initial : minBatchRecords ≤ initialBatchRecords
  target_nonneg : 0 ≤ targetBatchNanos
  cooldown_nonneg : 0 ≤ adjustmentCooldownSamples
  deriving DecidableEq

def AdaptiveBatchPolicy.enabled (policy : AdaptiveBatchPolicy) : Bool := 0 < policy.targetBatchNanos

structure BatchLimits extends AdaptiveBatchPolicy where
  maxBatchRecords : Int32
  initial_le_max : initialBatchRecords ≤ maxBatchRecords
  deriving DecidableEq

structure AdaptiveBatchSample where
  (records processingNanos queueWaitNanos queueDepth queueCapacity : ℕ)
  capacity_pos : 0 < queueCapacity
  depth_le : queueDepth ≤ queueCapacity

structure AdaptiveBatchController (limits : BatchLimits) where
  (currentBatchRecords cooldownRemaining : Int32)
  ewmaNanos : ℚ
  min_le : limits.minBatchRecords ≤ currentBatchRecords
  le_max : currentBatchRecords ≤ limits.maxBatchRecords
  cooldown_nonneg : 0 ≤ cooldownRemaining

namespace AdaptiveBatchController

variable {limits : BatchLimits}

theorem no_cooldown : (0 : Int32) ≤ 0 := Int32.le_refl 0

def new (limits : BatchLimits) : AdaptiveBatchController limits :=
  ⟨limits.initialBatchRecords, 0, -1, limits.min_le_initial, limits.initial_le_max, no_cooldown⟩

def doubleWithinLimit (limits : BatchLimits) (value : Int32) : Int32 :=
  if value > limits.maxBatchRecords / 2 then limits.maxBatchRecords else value * 2

def adjusted (limits : BatchLimits) (current : Int32) (ewma : ℚ) (sample : AdaptiveBatchSample) : Int32 :=
  let target := double limits.targetBatchNanos.toInt
  if sample.queueDepth = sample.queueCapacity ∨ double (target * (5 / 4)) ≤ ewma then
    max limits.minBatchRecords (current / 2)
  else if sample.queueDepth = 0 ∧ ewma ≤ double (target * (3 / 4)) then
    min limits.maxBatchRecords (doubleWithinLimit limits current)
  else current

theorem toInt_max (a b : Int32) : (max a b).toInt = max a.toInt b.toInt := by
  change (if a ≤ b then b else a).toInt = _
  simp only [apply_ite Int32.toInt, Int32.le_iff_toInt_le]
  exact (max_def _ _).symm

theorem toInt_min (a b : Int32) : (min a b).toInt = min a.toInt b.toInt := by
  change (if a ≤ b then a else b).toInt = _
  simp only [apply_ite Int32.toInt, Int32.le_iff_toInt_le]
  exact (min_def _ _).symm

theorem toInt_half {value : Int32} (h : 0 ≤ value.toInt) : (value / 2).toInt = value.toInt / 2 := by
  have hlt := value.toInt_lt
  rw [Int32.toInt_div, show (2 : Int32).toInt = 2 from rfl, Int.tdiv_eq_ediv_of_nonneg h]
  exact Int.bmod_eq_of_le (by omega) (by omega)

theorem max_nonneg (limits : BatchLimits) : 0 < limits.minBatchRecords.toInt ∧
      limits.minBatchRecords.toInt ≤ limits.maxBatchRecords.toInt :=
  ⟨Int32.lt_iff_toInt_lt.mp limits.min_pos,
    Int32.le_iff_toInt_le.mp (Int32.le_trans limits.min_le_initial limits.initial_le_max)⟩

/-- The guard keeps the product in range. -/
theorem toInt_doubleWithinLimit {value : Int32} (h : 0 ≤ value.toInt) : (doubleWithinLimit limits value).toInt =
    if value.toInt > limits.maxBatchRecords.toInt / 2 then limits.maxBatchRecords.toInt else value.toInt * 2 := by
  have hmax := max_nonneg limits
  have hlt := limits.maxBatchRecords.toInt_lt
  unfold doubleWithinLimit
  have hhalf : (limits.maxBatchRecords / 2).toInt = limits.maxBatchRecords.toInt / 2 := toInt_half (by omega)
  simp only [gt_iff_lt, Int32.lt_iff_toInt_lt, hhalf]
  split_ifs
  · rfl
  · rw [Int32.toInt_mul, show (2 : Int32).toInt = 2 from rfl]
    exact Int.bmod_eq_of_le (by omega) (by omega)

theorem adjusted_cases (limits : BatchLimits) {current : Int32} (h : 0 ≤ current.toInt) (ewma : ℚ) (sample : AdaptiveBatchSample) :
    (adjusted limits current ewma sample).toInt = max limits.minBatchRecords.toInt (current.toInt / 2) ∨
      (adjusted limits current ewma sample).toInt =
        min limits.maxBatchRecords.toInt (doubleWithinLimit limits current).toInt ∨
      adjusted limits current ewma sample = current := by
  simp only [adjusted]
  split_ifs
  · exact .inl (by rw [toInt_max, toInt_half h])
  · exact .inr (.inl (toInt_min _ _))
  · exact .inr (.inr rfl)

theorem adjusted_within {current : Int32} (hmin : limits.minBatchRecords ≤ current) (hmax : current ≤ limits.maxBatchRecords)
    (ewma : ℚ) (sample : AdaptiveBatchSample) :
    (limits.minBatchRecords ≤ adjusted limits current ewma sample ∧
      adjusted limits current ewma sample ≤ limits.maxBatchRecords) ∧
    current.toInt / 2 ≤ (adjusted limits current ewma sample).toInt ∧
      (adjusted limits current ewma sample).toInt ≤ 2 * current.toInt := by
  have hlimits := max_nonneg limits
  rw [Int32.le_iff_toInt_le] at hmin hmax
  have hcases := adjusted_cases limits (show 0 ≤ current.toInt by omega) ewma sample
  rw [toInt_doubleWithinLimit (by omega)] at hcases
  simp only [Int32.le_iff_toInt_le]
  rcases hcases with heq | heq | heq <;> rw [heq]
  · omega
  · split_ifs <;> omega
  · omega

theorem cooled {remaining : Int32} (h : 0 < remaining) :
    0 ≤ remaining - 1 ∧ (remaining - 1).toInt = remaining.toInt - 1 := by
  have hlt := remaining.toInt_lt
  rw [Int32.lt_iff_toInt_lt, show (0 : Int32).toInt = 0 from rfl] at h
  have hsub : (remaining - 1).toInt = remaining.toInt - 1 := by
    rw [Int32.toInt_sub, show (1 : Int32).toInt = 1 from rfl]
    exact Int.bmod_eq_of_le (by omega) (by omega)
  rw [Int32.le_iff_toInt_le, hsub, show (0 : Int32).toInt = 0 from rfl]
  exact ⟨by omega, rfl⟩

def observe (c : AdaptiveBatchController limits) (sample : AdaptiveBatchSample) : AdaptiveBatchController limits :=
  if limits.enabled = false ∨ sample.records = 0 then c
  else
    let observedNanos := double (double sample.processingNanos + double sample.queueWaitNanos)
    let ewma := if c.ewmaNanos < 0 then observedNanos
      else double (double (3 / 4 * c.ewmaNanos) + double (1 / 4 * observedNanos))
    if hcooling : 0 < c.cooldownRemaining then
      { c with
        ewmaNanos := ewma
        cooldownRemaining := c.cooldownRemaining - 1
        cooldown_nonneg := (cooled hcooling).1 }
    else
      let next := adjusted limits c.currentBatchRecords ewma sample
      have hnext := (adjusted_within c.min_le c.le_max ewma sample).1
      { currentBatchRecords := next
        cooldownRemaining :=
          if next = c.currentBatchRecords then c.cooldownRemaining else limits.adjustmentCooldownSamples
        ewmaNanos := ewma
        min_le := hnext.1
        le_max := hnext.2
        cooldown_nonneg := by split_ifs <;> [exact c.cooldown_nonneg; exact limits.cooldown_nonneg] }

theorem current_pos (c : AdaptiveBatchController limits) : 0 < c.currentBatchRecords.toInt :=
  (max_nonneg limits).1.trans_le (Int32.le_iff_toInt_le.mp c.min_le)

def changes (c : AdaptiveBatchController limits) (sample : AdaptiveBatchSample) : Prop :=
  (c.observe sample).currentBatchRecords ≠ c.currentBatchRecords

theorem observe_cases (c : AdaptiveBatchController limits) (sample : AdaptiveBatchSample) : c.observe sample = c ∨
      0 < sample.records ∧ (c.observe sample).currentBatchRecords = c.currentBatchRecords ∧
        (c.observe sample).cooldownRemaining.toInt = c.cooldownRemaining.toInt - 1 ∨
      0 < sample.records ∧ c.cooldownRemaining = 0 ∧ ∃ ewma,
        (c.observe sample).currentBatchRecords = adjusted limits c.currentBatchRecords ewma sample ∧
        ((c.observe sample).currentBatchRecords ≠ c.currentBatchRecords →
          (c.observe sample).cooldownRemaining = limits.adjustmentCooldownSamples) := by
  by_cases hidle : limits.enabled = false ∨ sample.records = 0
  · exact .inl (if_pos hidle)
  · have hrecords : 0 < sample.records := by omega
    unfold observe
    rw [if_neg hidle]
    by_cases hcooling : 0 < c.cooldownRemaining
    · rw [dif_pos hcooling]
      exact .inr (.inl ⟨hrecords, rfl, (cooled hcooling).2⟩)
    · have hzero : c.cooldownRemaining = 0 := Int32.le_antisymm (Int32.not_lt.mp hcooling) c.cooldown_nonneg
      rw [dif_neg hcooling]
      exact .inr (.inr ⟨hrecords, hzero, _, rfl, fun h => if_neg h⟩)

theorem observe_changes {c : AdaptiveBatchController limits} {sample : AdaptiveBatchSample} (h : c.changes sample) :
    c.cooldownRemaining = 0 ∧ (c.observe sample).cooldownRemaining = limits.adjustmentCooldownSamples := by
  rcases c.observe_cases sample with heq | ⟨-, heq, -⟩ | ⟨-, hzero, _, -, hcooldown⟩
  · exact absurd (congrArg currentBatchRecords heq) h
  · exact absurd heq h
  · exact ⟨hzero, hcooldown h⟩

theorem observe_within (c : AdaptiveBatchController limits) (sample : AdaptiveBatchSample) :
    c.currentBatchRecords.toInt / 2 ≤ (c.observe sample).currentBatchRecords.toInt ∧
      (c.observe sample).currentBatchRecords.toInt ≤ 2 * c.currentBatchRecords.toInt := by
  have hpos := c.current_pos
  rcases c.observe_cases sample with heq | ⟨-, heq, -⟩ | ⟨-, -, ewma, heq, -⟩ <;> rw [heq]
  · omega
  · omega
  · exact (adjusted_within c.min_le c.le_max ewma sample).2

def run (limits : BatchLimits) (samples : List AdaptiveBatchSample) : AdaptiveBatchController limits :=
  samples.foldl observe (new limits)

theorem foldl_cooldown (c : AdaptiveBatchController limits) (samples : List AdaptiveBatchSample) :
    c.cooldownRemaining.toInt ≤ (samples.foldl observe c).cooldownRemaining.toInt + samples.countP (0 < ·.records) := by
  induction samples generalizing c with
  | nil => simp
  | cons sample samples ih =>
    have hrest := ih (c.observe sample)
    simp only [List.foldl_cons, List.countP_cons, decide_eq_true_eq]
    rcases c.observe_cases sample with heq | ⟨hrecords, -, heq⟩ | ⟨-, hzero, -⟩
    · rw [heq] at hrest ⊢
      omega
    · rw [if_pos hrecords]
      omega
    · have hend := Int32.le_iff_toInt_le.mp (samples.foldl observe (c.observe sample)).cooldown_nonneg
      rw [hzero]
      omega

/-- The limit stays between the minimum and the maximum, and doubling it is exact; a sample at most doubles or halves
it; and the samples between two changes outlast the cooldown. -/
theorem run_adapts (limits : BatchLimits) (before : List AdaptiveBatchSample) (sample : AdaptiveBatchSample) :
    (limits.minBatchRecords ≤ (run limits before).currentBatchRecords ∧
        (run limits before).currentBatchRecords ≤ limits.maxBatchRecords) ∧
      (doubleWithinLimit limits (run limits before).currentBatchRecords).toInt =
        (if (run limits before).currentBatchRecords.toInt > limits.maxBatchRecords.toInt / 2 then
          limits.maxBatchRecords.toInt else (run limits before).currentBatchRecords.toInt * 2) ∧
      ((run limits before).currentBatchRecords.toInt / 2 ≤ (run limits (before ++ [sample])).currentBatchRecords.toInt ∧
        (run limits (before ++ [sample])).currentBatchRecords.toInt ≤ 2 * (run limits before).currentBatchRecords.toInt) ∧
      ∀ between next, (run limits before).changes sample → (run limits (before ++ sample :: between)).changes next →
        limits.adjustmentCooldownSamples.toInt ≤ between.countP (0 < ·.records) := by
  have hwithin := (run limits before).observe_within sample
  refine ⟨⟨(run limits before).min_le, (run limits before).le_max⟩,
    toInt_doubleWithinLimit (run limits before).current_pos.le, by simpa [run] using hwithin, ?_⟩
  intro between next hfirst hnext
  have hcool := foldl_cooldown ((run limits before).observe sample) between
  have hzero := (observe_changes hnext).1
  rw [(observe_changes hfirst).2] at hcool
  simp only [run, List.foldl_append, List.foldl_cons] at hcool hzero
  rw [hzero] at hcool
  simpa using hcool

def widest : BatchLimits :=
  ⟨⟨3, 1610612736, 200, 1, by decide, by decide, by decide, by decide⟩, 2147483647, by decide⟩

def quick : AdaptiveBatchSample := ⟨1, 30, 10, 0, 4, by decide, by decide⟩

/-- Twice the first limit is beyond the range of `int`. -/
theorem run_adapts_widest : ((run widest [quick]).currentBatchRecords = 2147483647 ∧
      (run widest [quick, quick]).currentBatchRecords = 2147483647) ∧
    (doubleWithinLimit widest (run widest []).currentBatchRecords).toInt = 2147483647 ∧
    ∀ between next, (run widest []).changes quick → (run widest (quick :: between)).changes next →
      widest.adjustmentCooldownSamples.toInt ≤ between.countP (0 < ·.records) :=
  have hadapts := run_adapts widest [] quick
  ⟨⟨by decide +kernel, by decide +kernel⟩, hadapts.2.1.trans (by decide), hadapts.2.2.2⟩

end AdaptiveBatchController

end AstraSync.AdaptiveBatch
