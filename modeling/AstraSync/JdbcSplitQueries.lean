import AstraSync.JdbcRangeSplits
import Mathlib.Data.Int.ConditionallyCompleteOrder

namespace AstraSync.JdbcSplitQueries

open CheckpointStore JdbcRangeSplits Results

section

inductive Comparison
  | atLeast
  | less
  | greater
  deriving DecidableEq

def Comparison.test {α : Type} [LinearOrder α] (a b : α) : Comparison → Bool
  | .atLeast => b ≤ a
  | .less => a < b
  | .greater => b < a

def Comparison.text : Comparison → String
  | .atLeast => ">="
  | .less => "<"
  | .greater => ">"

inductive Operand
  | number (n : ℤ)
  | parameter
  deriving DecidableEq

def Operand.text : Operand → String
  | .number n => toString n
  | .parameter => "?"

structure Condition where
  column : String
  comparison : Comparison
  operand : Operand
  deriving DecidableEq

def Condition.words (c : Condition) : List String := [c.column, c.comparison.text, c.operand.text]

def clause : List Condition → List String
  | [] => []
  | [c] => c.words
  | c :: cs => c.words ++ "AND" :: clause cs

structure Query where
  table : String
  conditions : List Condition
  order : String
  deriving DecidableEq

def words (text : String) : List String := (text.toList.splitOn ' ').map String.ofList

def comparisonOf : String → Option Comparison
  | ">=" => some .atLeast
  | "<" => some .less
  | ">" => some .greater
  | _ => none

def digitsOf (digits : List Char) : Option ℕ :=
  if !digits.isEmpty && digits.all Char.isDigit then some (Nat.ofDigitChars 10 digits 0) else none

def numberOf (word : String) : Option ℤ :=
  match word.toList with
  | '-' :: digits => (digitsOf digits).map fun k : ℕ => (-k : ℤ)
  | digits => (digitsOf digits).map fun k : ℕ => (k : ℤ)

def operandOf (word : String) : Option Operand :=
  if word = "?" then some .parameter else (numberOf word).map .number

def conditionOf (column comparison operand : String) : Option Condition := do
  return ⟨column, ← comparisonOf comparison, ← operandOf operand⟩

def conditionsOf : List String → Option (List Condition × String)
  | [column, comparison, operand, "ORDER", "BY", order] =>
    (conditionOf column comparison operand).map fun c => ([c], order)
  | column :: comparison :: operand :: "AND" :: rest => do
    let c ← conditionOf column comparison operand
    let (cs, order) ← conditionsOf rest
    return (c :: cs, order)
  | _ => none

def parse (reserved : String → Bool) (text : String) : Option Query :=
  match words text with
  | "SELECT" :: "*" :: "FROM" :: table :: "WHERE" :: rest => do
    let (conditions, order) ← conditionsOf rest
    if reserved table || reserved order || conditions.any (reserved ·.column) then none
    else some ⟨table, conditions, order⟩
  | _ => none

/-- A table, and how the database reads its values: as numbers, and against a parameter given by its text. -/
structure Database (V : Type) where
  reserved : String → Bool
  table : String
  columns : List String
  rows : List (String → Option V)
  decimal : V → ℚ
  parameter : String → V

variable {V : Type} [LinearOrder V] (db : Database V)

def Condition.holds (argument : Option String) (row : String → Option V) (c : Condition) : Bool :=
  match row c.column, c.operand, argument with
  | some v, .number n, _ => c.comparison.test (db.decimal v) n
  | some v, .parameter, some text => c.comparison.test v (db.parameter text)
  | _, _, _ => false

def Query.parameters (q : Query) : ℕ := q.conditions.countP (·.operand = .parameter)

def sortKey (column : String) (row : String → Option V) : WithBot V := row column

def Database.execute (text : String) (argument : Option String) : Option (List (String → Option V)) := do
  let q ← parse db.reserved text
  if q.table = db.table ∧ q.order ∈ db.columns ∧ (∀ c ∈ q.conditions, c.column ∈ db.columns) ∧
      q.parameters = argument.toList.length then
    return (db.rows.filter fun row => q.conditions.all (Condition.holds db argument row)).insertionSort
      fun a b => sortKey q.order a ≤ sortKey q.order b
  else none

end

section

def identifier : List Char → Bool
  | [] => false
  | c :: rest => (c.isAlpha || c = '_') && rest.all fun d => d.isAlphanum || d = '_'

def tablePattern (table : List Char) : Bool :=
  let rest := table.dropWhile (· != '.')
  identifier (table.takeWhile (· != '.')) && (rest.isEmpty || identifier rest.tail)

structure Options where
  (table splitColumn : String)
  resumeColumn : Option String
  splitCount : ℕ
  table_valid : tablePattern table.toList = true
  splitColumn_valid : identifier splitColumn.toList = true
  resumeColumn_valid : resumeColumn.all (identifier ·.toList) = true
  splitCount_pos : 0 < splitCount

structure Split where
  (splitId sourceId : String)
  (start stop : SplitPosition)
  deriving DecidableEq

inductive Refusal
  | foreignSplit
  | startColumns
  | endColumns
  | boundaryNotInteger
  | unbounded
  | emptyRange
  | noResumeColumn
  | resumeColumns
  | resumeMismatch
  deriving DecidableEq

structure Reader where
  query : String
  (resumeColumn resumeValue : Option String)
  deriving DecidableEq

variable (o : Options) (bigInteger : String → Option ℤ)

def sourceId : String := "jdbc:" ++ o.table

def source : Source Unit := ⟨o.table, [], "", o.splitCount, [], fun _ => (), o.splitCount_pos⟩

def position (value : ℤ) : SplitPosition := [(o.splitColumn, toString value)]

def ranges (minimum maximum : ℤ) : List Split :=
  (JdbcRangeSplits.ranges (source o) minimum maximum).map fun s =>
    ⟨s.splitId, sourceId o, position o s.start, s.stop.elim [] (position o)⟩

def enumerate (counts : ℕ × ℕ × ℕ) (extremes : Option (ℚ × ℚ)) : Except SplitError (List Split) := do
  if o.resumeColumn.isSome then validateResumeValues counts.1 counts.2.1 counts.2.2
  match extremes with
  | none => return []
  | some (low, high) =>
    let minimum ← integral low
    let maximum ← integral high
    check (minimum ≤ maximum) .minimumExceedsMaximum
    return ranges o minimum maximum

def boundary (position : SplitPosition) (stop : Bool) : Except Refusal (Option ℤ) :=
  match position with
  | [] => .ok none
  | [(column, text)] =>
    if column = o.splitColumn then
      match bigInteger text with
      | some n => .ok (some n)
      | none => .error .boundaryNotInteger
    else .error (if stop then .endColumns else .startColumns)
  | _ => .error (if stop then .endColumns else .startColumns)

def resumeBoundary (position : SplitPosition) : Except Refusal (Option String) :=
  if position.isEmpty then .ok none
  else match o.resumeColumn with
    | none => .error .noResumeColumn
    | some resumeColumn =>
      match position with
      | [(column, text)] => if column = resumeColumn then .ok (some text) else .error .resumeColumns
      | _ => .error .resumeColumns

def query (start stop : Option ℤ) (resume : Option String) : String :=
  "SELECT * FROM " ++ o.table ++ " WHERE " ++ o.splitColumn ++
    (start.elim "" fun n => " >= " ++ toString n) ++
    (stop.elim "" fun n => (if start.isSome then " AND " else "") ++ o.splitColumn ++ " < " ++ toString n) ++
    (if resume.isSome then " AND " ++ o.resumeColumn.getD "null" ++ " > ?" else "") ++
    " ORDER BY " ++ o.resumeColumn.getD o.splitColumn

def createSource (split : Split) (resumePosition : SplitPosition) : Except Refusal Reader := do
  check (sourceId o = split.sourceId) .foreignSplit
  let start ← boundary o bigInteger split.start false
  let stop ← boundary o bigInteger split.stop true
  check (start.isSome || stop.isSome) .unbounded
  check (start.all fun a => stop.all fun b => a < b) .emptyRange
  let resume ← resumeBoundary o resumePosition
  return ⟨query o start stop resume, o.resumeColumn, resume⟩

def Reader.validateResumePosition (r : Reader) (position : SplitPosition) : Except Refusal Unit :=
  if position.isEmpty then if r.resumeValue.isSome then .error .resumeMismatch else .ok ()
  else match r.resumeColumn, r.resumeValue with
    | some column, some value => if position = [(column, value)] then .ok () else .error .resumeMismatch
    | _, _ => .error .resumeMismatch

def Reader.openAt {V : Type} [LinearOrder V] (db : Database V) (r : Reader) (position : SplitPosition) :
    Except Refusal (Option (List (String → Option V))) := do
  r.validateResumePosition position
  return db.execute r.query r.resumeValue

end

theorem words_intercalate {ws : List String} (hne : ws ≠ []) (h : ∀ w ∈ ws, ' ' ∉ w.toList) :
    words (" ".intercalate ws) = ws := by
  have hfree : ∀ l ∈ ws.map String.toList, ' ' ∉ l := by
    intro l hl
    obtain ⟨w, hw, rfl⟩ := List.mem_map.mp hl
    exact h w hw
  have hsplit := List.splitOn_intercalate ' ' hfree (by simpa using hne)
  rw [words, String.toList_intercalate, show " ".toList = [' '] from rfl, hsplit, List.map_map]
  simp

theorem identifier_no_space {l : List Char} (h : identifier l = true) : ' ' ∉ l := by
  cases l with
  | nil => simp
  | cons =>
    simp only [identifier, Bool.and_eq_true, List.all_eq_true] at h
    intro hspace
    rcases List.mem_cons.mp hspace with rfl | hrest
    · exact absurd h.1 (by decide)
    · exact absurd (h.2 ' ' hrest) (by decide)

theorem tablePattern_no_space {l : List Char} (h : tablePattern l = true) : ' ' ∉ l := by
  simp only [tablePattern, Bool.and_eq_true, Bool.or_eq_true] at h
  obtain ⟨hfirst, hrest⟩ := h
  rw [← List.takeWhile_append_dropWhile (p := (· != '.')) (l := l), List.mem_append, not_or]
  refine ⟨identifier_no_space hfirst, ?_⟩
  have hdot := List.head?_dropWhile_not (· != '.') l
  cases hdrop : l.dropWhile (· != '.') with
  | nil => simp
  | cons c rest =>
    rw [hdrop] at hrest hdot
    have hc : c = '.' := by simpa using hdot
    subst hc
    have hspace := identifier_no_space (hrest.resolve_left (by simp))
    simpa using hspace

theorem isDigit_repr {k : ℕ} {c : Char} (h : c ∈ k.repr.toList) : c.isDigit = true := by
  rw [Nat.toList_repr] at h
  exact Nat.isDigit_of_mem_toDigits (by decide) (by decide) h

theorem toList_toString (n : ℤ) : (toString n).toList = n.natAbs.repr.toList ∧ 0 ≤ n ∨
    (toString n).toList = '-' :: n.natAbs.repr.toList ∧ n < 0 := by
  rw [Int.toString_eq_repr, Int.repr_eq_if]
  split_ifs with hn
  · exact .inl ⟨by rw [show n.toNat = n.natAbs by omega], hn⟩
  · refine .inr ⟨?_, by omega⟩
    rw [show (-n).toNat = n.natAbs by omega]
    simp

theorem toString_no_space (n : ℤ) : ' ' ∉ (toString n).toList := by
  have hdigits : ' ' ∉ n.natAbs.repr.toList := fun h => absurd (isDigit_repr h) (by decide)
  rcases toList_toString n with ⟨heq, -⟩ | ⟨heq, -⟩
  · rwa [heq]
  · rw [heq, List.mem_cons, not_or]
    exact ⟨by decide, hdigits⟩

theorem digitsOf_repr (k : ℕ) : digitsOf k.repr.toList = some k := by
  have hne : k.repr.toList ≠ [] := by simp [Nat.toList_repr, Nat.toDigits_ne_nil]
  have hdigits : (!k.repr.toList.isEmpty && k.repr.toList.all Char.isDigit) = true := by
    simpa [hne] using fun c => isDigit_repr (k := k)
  rw [digitsOf, if_pos hdigits, Nat.toList_repr, Nat.ofDigitChars_toDigits (by decide) (by decide)]

theorem numberOf_toString (n : ℤ) : numberOf (toString n) = some n := by
  unfold numberOf
  rcases toList_toString n with ⟨heq, hn⟩ | ⟨heq, hn⟩
  · rw [heq]
    split
    · rename_i digits hminus
      exact absurd (isDigit_repr (k := n.natAbs) (c := '-') (by simp [hminus])) (by decide)
    · rw [digitsOf_repr, Option.map_some, Int.natAbs_of_nonneg hn]
  · rw [heq]
    simp only [digitsOf_repr, Option.map_some]
    congr 1
    omega

theorem operandOf_toString (n : ℤ) : operandOf (toString n) = some (.number n) := by
  have hne : toString n ≠ "?" := by
    intro heq
    have hparse := numberOf_toString n
    rw [heq, show numberOf "?" = none by decide] at hparse
    cases hparse
  rw [operandOf, if_neg hne, numberOf_toString, Option.map_some]

theorem conditionOf_words (c : Condition) : conditionOf c.column c.comparison.text c.operand.text = some c := by
  obtain ⟨column, comparison, operand⟩ := c
  have hcomparison : comparisonOf comparison.text = some comparison := by cases comparison <;> rfl
  have hoperand : operandOf operand.text = some operand := by
    cases operand with
    | number n => exact operandOf_toString n
    | parameter => rfl
  simp [conditionOf, hcomparison, hoperand]

theorem conditionsOf_clause (c : Condition) (cs : List Condition) (order : String) :
    conditionsOf (clause (c :: cs) ++ ["ORDER", "BY", order]) = some (c :: cs, order) := by
  induction cs generalizing c with
  | nil => simp [clause, Condition.words, conditionsOf, conditionOf_words]
  | cons d cs ih => simp [clause, Condition.words, conditionsOf, conditionOf_words, ih]

theorem clause_no_space {cs : List Condition} (h : ∀ c ∈ cs, ' ' ∉ c.column.toList) : ∀ w ∈ clause cs, ' ' ∉ w.toList := by
  have hwords {c : Condition} (hc : ' ' ∉ c.column.toList) : ∀ w ∈ c.words, ' ' ∉ w.toList := by
    obtain ⟨column, comparison, operand⟩ := c
    simp only [Condition.words, List.forall_mem_cons]
    refine ⟨hc, by cases comparison <;> decide, ?_, by simp⟩
    cases operand with
    | number n => exact toString_no_space n
    | parameter => decide
  induction cs with
  | nil => simp [clause]
  | cons c cs ih =>
    rw [List.forall_mem_cons] at h
    cases cs with
    | nil => exact hwords h.1
    | cons d cs =>
      simp only [clause, List.forall_mem_append, List.forall_mem_cons]
      exact ⟨hwords h.1, by decide, ih h.2⟩

section

variable {o : Options} {bigInteger : String → Option ℤ} {split : Split} {resumePosition : SplitPosition} {reader : Reader}
  {V : Type} [LinearOrder V] {db : Database V}

structure Serves (db : Database V) (o : Options) : Prop where
  table : db.table = o.table
  splitColumn : o.splitColumn ∈ db.columns
  resumeColumn : ∀ column ∈ o.resumeColumn, column ∈ db.columns
  table_free : db.reserved o.table = false
  splitColumn_free : db.reserved o.splitColumn = false
  resumeColumn_free : ∀ column ∈ o.resumeColumn, db.reserved column = false

def selected (db : Database V) (o : Options) (start stop : Option ℤ) (resumePosition : SplitPosition)
    (row : String → Option V) : Bool :=
  ((row o.splitColumn).any fun v => start.all (fun n => (n : ℚ) ≤ db.decimal v) && stop.all fun n => db.decimal v < n) &&
    resumePosition.all fun offset => (row offset.1).any (db.parameter offset.2 < ·)

def order (o : Options) : String := o.resumeColumn.getD o.splitColumn

/-- With an upper bound alone the text names the column twice in a row. -/
def conditions (o : Options) (start stop : Option ℤ) (resumePosition : SplitPosition) : List Condition :=
  (start.map fun n => ⟨o.splitColumn, .atLeast, .number n⟩).toList ++
    (stop.map fun n => ⟨if start.isSome then o.splitColumn else o.splitColumn ++ o.splitColumn, .less, .number n⟩).toList ++
    resumePosition.map fun offset => ⟨offset.1, .greater, .parameter⟩

theorem resumeColumn_no_space {column : String} (h : o.resumeColumn = some column) : ' ' ∉ column.toList := by
  have hvalid := o.resumeColumn_valid
  rw [h] at hvalid
  exact identifier_no_space hvalid

theorem order_no_space : ' ' ∉ (order o).toList := by
  unfold order
  cases h : o.resumeColumn with
  | none => exact identifier_no_space o.splitColumn_valid
  | some => exact resumeColumn_no_space h

variable {start stop : Option ℤ} {resume : Option String}

theorem boundary_position {value : ℤ} {stop : Bool} (h : bigInteger (toString value) = some value) :
    boundary o bigInteger (position o value) stop = .ok (some value) := by
  simp only [boundary, position, if_true, h]

theorem boundary_ok {p : SplitPosition} {stop : Bool} {bound : Option ℤ} (h : boundary o bigInteger p stop = .ok bound) :
    p = [] ↔ bound = none := by
  unfold boundary at h
  split at h
  · cases h
    simp
  · split_ifs at h
    split at h
    · cases h
      simp
    · cases h
  · cases h

theorem resumeBoundary_ok (h : resumeBoundary o resumePosition = .ok resume) : resumePosition = [] ∧ resume = none ∨
      ∃ column text, o.resumeColumn = some column ∧ resumePosition = [(column, text)] ∧ resume = some text := by
  unfold resumeBoundary at h
  split_ifs at h with hempty
  · cases h
    exact .inl ⟨List.isEmpty_iff.mp hempty, rfl⟩
  · split at h
    · cases h
    · rename_i column hcolumn
      split at h
      · rename_i name text
        split_ifs at h with hname
        cases h
        exact .inr ⟨column, text, hcolumn, by rw [hname], rfl⟩
      · cases h

theorem createSource_ok (h : createSource o bigInteger split resumePosition = .ok reader) :
    ∃ start stop resume, boundary o bigInteger split.start false = .ok start ∧
      boundary o bigInteger split.stop true = .ok stop ∧ (start.isSome || stop.isSome) = true ∧
      resumeBoundary o resumePosition = .ok resume ∧ reader = ⟨query o start stop resume, o.resumeColumn, resume⟩ := by
  unfold createSource at h
  replace h := bind_rest h
  obtain ⟨start, hstart, h⟩ := bind_eq_ok.mp h
  obtain ⟨stop, hstop, h⟩ := bind_eq_ok.mp h
  obtain ⟨⟨⟩, hbound, h⟩ := bind_eq_ok.mp h
  replace h := bind_rest h
  obtain ⟨resume, hresume, h⟩ := bind_eq_ok.mp h
  cases h
  exact ⟨start, stop, resume, hstart, hstop, check_ok.mp hbound, hresume, rfl⟩

def queryWords (o : Options) (cs : List Condition) : List String :=
  "SELECT" :: "*" :: "FROM" :: o.table :: "WHERE" :: (clause cs ++ ["ORDER", "BY", order o])

theorem order_cases (o : Options) : order o = o.splitColumn ∧ o.resumeColumn = none ∨ o.resumeColumn = some (order o) := by
  unfold order
  cases o.resumeColumn <;> simp

section

variable (hresume : resumeBoundary o resumePosition = .ok resume)

include hresume

theorem query_eq (hbound : (start.isSome || stop.isSome) = true) :
    query o start stop resume = " ".intercalate (queryWords o (conditions o start stop resumePosition)) := by
  have hselect : "SELECT * FROM " = "SELECT" ++ " " ++ "*" ++ " " ++ "FROM" ++ " " := rfl
  have hwhere : " WHERE " = " " ++ "WHERE" ++ " " := rfl
  have hleast : " >= " = " " ++ ">=" ++ " " := rfl
  have hand : " AND " = " " ++ "AND" ++ " " := rfl
  have hless : " < " = " " ++ "<" ++ " " := rfl
  have hgreater : " > ?" = " " ++ ">" ++ " " ++ "?" := rfl
  have horder : " ORDER BY " = " " ++ "ORDER" ++ " " ++ "BY" ++ " " := rfl
  unfold query
  rw [hselect, hwhere, hleast, hless, horder]
  rcases resumeBoundary_ok hresume with ⟨rfl, rfl⟩ | ⟨column, text, hname, rfl, rfl⟩
  all_goals
    rcases start with - | start <;> rcases stop with - | stop
    · cases hbound
    all_goals
      simp only [queryWords, conditions, clause, Condition.words, Comparison.text, Operand.text, order, Option.elim_none,
        Option.elim_some, Option.isSome_some, Option.isSome_none, Option.map_some, Option.map_none, Option.toList_some,
        Option.toList_none, List.map_cons, List.map_nil, if_true, Bool.false_eq_true, if_false, List.cons_append,
        List.nil_append, List.append_nil, String.append_assoc, String.intercalate_cons_cons,
        String.intercalate_singleton, String.empty_append, *, Option.getD_some]

theorem mem_conditions {c : Condition} (hc : c ∈ conditions o start stop resumePosition) : c.column = o.splitColumn ∨
      start = none ∧ c.column = o.splitColumn ++ o.splitColumn ∨ o.resumeColumn = some c.column := by
  simp only [conditions, List.mem_append, Option.mem_toList, Option.map_eq_some_iff, List.mem_map] at hc
  rcases hc with (⟨n, -, rfl⟩ | ⟨n, -, rfl⟩) | ⟨offset, hoffset, rfl⟩
  · exact .inl rfl
  · cases start with
    | none => exact .inr (.inl ⟨rfl, rfl⟩)
    | some => exact .inl rfl
  · rcases resumeBoundary_ok hresume with ⟨rfl, -⟩ | ⟨column, text, hname, rfl, -⟩
    · cases hoffset
    · cases List.mem_singleton.mp hoffset
      exact .inr (.inr hname)

theorem parse_query (reserved : String → Bool) (start stop : Option ℤ) (hbound : (start.isSome || stop.isSome) = true) :
    parse reserved (query o start stop resume) =
      if reserved o.table || reserved (order o) || (conditions o start stop resumePosition).any (reserved ·.column) then none
      else some ⟨o.table, conditions o start stop resumePosition, order o⟩ := by
  have hcolumn := identifier_no_space o.splitColumn_valid
  have hcolumns : ∀ c ∈ conditions o start stop resumePosition, ' ' ∉ c.column.toList := by
    intro c hc
    rcases mem_conditions hresume hc with hname | ⟨-, hname⟩ | hname
    · rwa [hname]
    · simpa [hname] using hcolumn
    · exact resumeColumn_no_space hname
  have hwords : words (query o start stop resume) = queryWords o (conditions o start stop resumePosition) := by
    rw [query_eq hresume hbound]
    refine words_intercalate (by simp [queryWords]) ?_
    simp only [queryWords, List.forall_mem_cons, List.forall_mem_append]
    exact ⟨by decide, by decide, by decide, tablePattern_no_space o.table_valid, by decide, clause_no_space hcolumns,
      by decide, by decide, order_no_space, by simp⟩
  have hconditions : conditionsOf (clause (conditions o start stop resumePosition) ++ ["ORDER", "BY", order o]) =
      some (conditions o start stop resumePosition, order o) := by
    cases hlist : conditions o start stop resumePosition with
    | nil => cases start <;> cases stop <;> simp [conditions] at hlist hbound
    | cons => exact conditionsOf_clause ..
  rw [parse, hwords]
  simp [queryWords, hconditions]

theorem all_holds {start : ℤ} (row : String → Option V) :
    (conditions o (some start) stop resumePosition).all (Condition.holds db resume row) =
      selected db o (some start) stop resumePosition row := by
  have hafter : (resumePosition.map fun offset => (⟨offset.1, .greater, .parameter⟩ : Condition)).all
      (Condition.holds db resume row) = resumePosition.all fun offset => (row offset.1).any (db.parameter offset.2 < ·) := by
    rcases resumeBoundary_ok hresume with ⟨rfl, rfl⟩ | ⟨column, text, -, rfl, rfl⟩
    · rfl
    · cases hvalue : row column <;> simp [Condition.holds, hvalue, Comparison.test]
  simp only [conditions, selected, List.all_append, hafter]
  congr 1
  cases hvalue : row o.splitColumn <;> cases stop <;> simp [Condition.holds, hvalue, Comparison.test]

theorem parameters_conditions :
    (conditions o start stop resumePosition).countP (·.operand = .parameter) = resume.toList.length := by
  rcases resumeBoundary_ok hresume with ⟨rfl, rfl⟩ | ⟨column, text, -, rfl, rfl⟩
  all_goals cases start <;> cases stop <;> simp [conditions]

theorem execute_query {start : ℤ} (hserves : Serves db o) :
    db.execute (query o (some start) stop resume) resume =
      some ((db.rows.filter (selected db o (some start) stop resumePosition)).insertionSort
        fun a b => sortKey (order o) a ≤ sortKey (order o) b) := by
  have horder : order o ∈ db.columns ∧ db.reserved (order o) = false := by
    rcases order_cases o with ⟨hname, -⟩ | hname
    · rw [hname]
      exact ⟨hserves.splitColumn, hserves.splitColumn_free⟩
    · exact ⟨hserves.resumeColumn _ hname, hserves.resumeColumn_free _ hname⟩
  have hcolumns : ∀ c ∈ conditions o (some start) stop resumePosition, c.column ∈ db.columns ∧ db.reserved c.column = false := by
    intro c hc
    rcases mem_conditions hresume hc with hname | ⟨hnone, -⟩ | hname
    · rw [hname]
      exact ⟨hserves.splitColumn, hserves.splitColumn_free⟩
    · cases hnone
    · exact ⟨hserves.resumeColumn _ hname, hserves.resumeColumn_free _ hname⟩
  have hreserved : (conditions o (some start) stop resumePosition).any (db.reserved ·.column) = false :=
    List.any_eq_false.mpr fun c hc => by simp [(hcolumns c hc).2]
  simp only [Database.execute, parse_query hresume db.reserved (some start) stop rfl, hserves.table_free,
    horder.2, hreserved, Bool.or_false, Bool.false_eq_true, if_false, Option.bind_eq_bind, Option.bind_some]
  rw [if_pos ⟨hserves.table.symm, horder.1, fun c hc => (hcolumns c hc).1, parameters_conditions hresume⟩]
  simp only [all_holds hresume, pure]

/-- A statement with a lower bound names the table and both columns, so it is only executed where they are served. -/
theorem serves_of_execute {start : ℤ} {rows : List (String → Option V)}
    (h : db.execute (query o (some start) stop resume) resume = some rows) : Serves db o := by
  have hmem : (⟨o.splitColumn, .atLeast, .number start⟩ : Condition) ∈ conditions o (some start) stop resumePosition := by
    simp [conditions]
  simp only [Database.execute, parse_query hresume db.reserved (some start) stop rfl,
    Option.bind_eq_bind, Option.bind_eq_some_iff] at h
  obtain ⟨q, hq, h⟩ := h
  split_ifs at hq with hreserved
  cases hq
  split_ifs at h with hnames
  obtain ⟨htable, horder, hcolumns, -⟩ := hnames
  simp only [Bool.or_eq_true, not_or, Bool.not_eq_true, List.any_eq_false] at hreserved
  obtain ⟨⟨htableFree, horderFree⟩, hfree⟩ := hreserved
  have hresumeOrder {column : String} (hname : column ∈ o.resumeColumn) : order o = column := by
    rw [order, hname, Option.getD_some]
  exact ⟨htable.symm, hcolumns _ hmem, fun column hname => hresumeOrder hname ▸ horder, htableFree, by simpa using hfree _ hmem,
    fun column hname => hresumeOrder hname ▸ horderFree⟩

theorem openAt_query :
    Reader.openAt db ⟨query o start stop resume, o.resumeColumn, resume⟩ resumePosition =
      .ok (db.execute (query o start stop resume) resume) := by
  rcases resumeBoundary_ok hresume with ⟨rfl, rfl⟩ | ⟨column, text, hname, rfl, rfl⟩
  · rfl
  · simp [Reader.openAt, Reader.validateResumePosition, hname]

end

/-- The reader gives exactly the rows between the bounds of its split and after the position, in the order of the
resume column. -/
def Reads (db : Database V) (o : Options) (bigInteger : String → Option ℤ) (split : Split)
    (resumePosition : SplitPosition) (reader : Reader) : Prop :=
  ∃ start stop rows, boundary o bigInteger split.start false = .ok start ∧
    boundary o bigInteger split.stop true = .ok stop ∧ reader.openAt db resumePosition = .ok (some rows) ∧
    rows.Perm (db.rows.filter (selected db o start stop resumePosition)) ∧
    rows.Pairwise fun a b => sortKey (order o) a ≤ sortKey (order o) b

/-- A table whose one row lies below `n` in the split column, and not below it in any other column. -/
def besides (o : Options) (n : ℤ) : Database ℤ :=
  ⟨fun _ => false, o.table, o.splitColumn :: o.resumeColumn.toList,
    [fun column => some (if column = o.splitColumn then n - 1 else n)], fun v => v, fun _ => n - 2⟩

theorem besides_serves (o : Options) (n : ℤ) : Serves (besides o n) o :=
  ⟨rfl, by simp [besides], fun _ hname => by simp [besides, Option.mem_def.mp hname], rfl, rfl, fun _ _ => rfl⟩

theorem besides_selected (o : Options) (n : ℤ) (resumePosition : SplitPosition) :
    ∀ row ∈ (besides o n).rows, selected (besides o n) o none (some n) resumePosition row = true := by
  have hafter (column : String) : n - 2 < if column = o.splitColumn then n - 1 else n := by
    split_ifs <;> omega
  simp [besides, selected, hafter]

theorem besides_execute {n : ℤ} {rows : List (String → Option ℤ)}
    (hresume : resumeBoundary o resumePosition = .ok resume)
    (h : (besides o n).execute (query o none (some n) resume) resume = some rows) : rows = [] := by
  simp only [Database.execute, parse_query hresume (besides o n).reserved none (some n) rfl,
    Option.bind_eq_bind, Option.bind_eq_some_iff] at h
  obtain ⟨q, hq, h⟩ := h
  split_ifs at hq
  cases hq
  split_ifs at h
  have hdouble : o.splitColumn ++ o.splitColumn ≠ o.splitColumn := by
    intro heq
    have hvalid := o.splitColumn_valid
    rw [show o.splitColumn = "" by simpa using heq] at hvalid
    exact absurd hvalid (by decide)
  cases h
  simp [besides, conditions, Condition.holds, Comparison.test, hdouble]

def sampleOptions : Options := ⟨"t", "id", none, 2, by decide, by decide, rfl, by decide⟩

def sampleRow (column : String) : Option ℤ := if column = "id" then some 5 else none

def sampleTable : Database ℤ := ⟨fun _ => false, "t", ["id"], [sampleRow], fun v => v, fun _ => 0⟩

theorem sampleTable_serves : Serves sampleTable sampleOptions :=
  ⟨rfl, by decide, by rintro _ ⟨⟩, rfl, rfl, by rintro _ ⟨⟩⟩

end

variable {o : Options} {bigInteger : String → Option ℤ} {minimum maximum : ℤ}

theorem bound_lt {count : ℕ} (hpos : 0 < count) (hle : (count : ℤ) ≤ maximum - minimum + 1) (i : ℕ) :
    bound minimum maximum count i < bound minimum maximum count (i + 1) := by
  have hstep : (maximum - minimum + 1) * i + 1 * count ≤ (maximum - minimum + 1) * (i + 1 : ℕ) := by
    push_cast
    linarith
  have hdiv := Int.ediv_le_ediv (Int.natCast_pos.mpr hpos) hstep
  rw [Int.add_mul_ediv_right _ _ (by omega)] at hdiv
  unfold bound
  omega

theorem bound_count {count : ℕ} (hpos : 0 < count) : bound minimum maximum count count = maximum + 1 := by
  unfold bound
  rw [Int.mul_ediv_cancel _ (by omega)]
  omega

abbrev count (o : Options) (minimum maximum : ℤ) : ℕ := rangeCount (source o) minimum maximum

def cuts (o : Options) (minimum maximum : ℤ) (i : ℕ) : ℤ := bound minimum maximum (count o minimum maximum) i

theorem rangeCount_le (h : minimum ≤ maximum) : ((count o minimum maximum : ℕ) : ℤ) ≤ maximum - minimum + 1 ∧
      count o minimum maximum ≤ o.splitCount := by
  have hsource : (source o).splitCount = o.splitCount := rfl
  simp only [rangeCount, hsource]
  split_ifs <;> omega

def upper (o : Options) (minimum maximum : ℤ) (i : ℕ) : Option ℤ :=
  if i + 1 = count o minimum maximum then none else some (cuts o minimum maximum (i + 1))

def rangeSplit (o : Options) (minimum maximum : ℤ) (i : ℕ) : Split :=
  ⟨JdbcRangeSplits.sourceId (source o) ++ "-split-" ++ toString i, sourceId o, position o (cuts o minimum maximum i),
    (upper o minimum maximum i).elim [] (position o)⟩

theorem ranges_eq (o : Options) (minimum maximum : ℤ) :
    ranges o minimum maximum = (List.range (count o minimum maximum)).map (rangeSplit o minimum maximum) := by
  simp only [ranges, JdbcRangeSplits.ranges, List.map_map]
  rfl

theorem getElem?_ranges (o : Options) (minimum maximum : ℤ) (i : ℕ) : (ranges o minimum maximum)[i]? =
    if i < count o minimum maximum then some (rangeSplit o minimum maximum i) else none := by
  rw [ranges_eq, List.getElem?_map]
  split_ifs with hi
  · rw [List.getElem?_range hi, Option.map_some]
  · rw [List.getElem?_eq_none (by simpa using hi), Option.map_none]

theorem enumerate_eq {counts : ℕ × ℕ × ℕ} (h : minimum ≤ maximum)
    (hcounts : o.resumeColumn.isSome = true → counts.2.1 = counts.1 ∧ counts.2.2 = counts.1) :
    enumerate o counts (some ((minimum : ℚ), (maximum : ℚ))) = .ok (ranges o minimum maximum) := by
  have hinteger (n : ℤ) : integral (n : ℚ) = .ok n := by simp [integral]
  have hrest : (do
      let minimum ← integral (minimum : ℚ)
      let maximum ← integral (maximum : ℚ)
      check (minimum ≤ maximum) SplitError.minimumExceedsMaximum
      return ranges o minimum maximum) = .ok (ranges o minimum maximum) :=
    bind_eq_ok.mpr ⟨_, hinteger _, bind_eq_ok.mpr ⟨_, hinteger _, bind_eq_ok.mpr
      ⟨(), check_ok.mpr (decide_eq_true h), rfl⟩⟩⟩
  unfold enumerate
  split_ifs with hsome
  · obtain ⟨hvalues, hdistinct⟩ := hcounts hsome
    exact bind_eq_ok.mpr ⟨(), validateResumeValues_ok.mpr ⟨hvalues, hdistinct⟩, hrest⟩
  · exact hrest

theorem createSource_range (hbig : ∀ n : ℤ, bigInteger (toString n) = some n) (h : minimum ≤ maximum) (i : ℕ) :
    createSource o bigInteger (rangeSplit o minimum maximum i) [] =
      .ok ⟨query o (some (cuts o minimum maximum i)) (upper o minimum maximum i) none, o.resumeColumn, none⟩ := by
  have hlow : boundary o bigInteger (rangeSplit o minimum maximum i).start false = .ok (some (cuts o minimum maximum i)) :=
    boundary_position (hbig _)
  have hhigh : boundary o bigInteger (rangeSplit o minimum maximum i).stop true = .ok (upper o minimum maximum i) := by
    cases hupper : upper o minimum maximum i with
    | none => simp [rangeSplit, hupper, boundary]
    | some n => simpa [rangeSplit, hupper] using boundary_position (hbig n)
  have hlt : ((upper o minimum maximum i).all fun b => cuts o minimum maximum i < b) = true := by
    unfold upper
    split_ifs
    · rfl
    · exact decide_eq_true (bound_lt (rangeCount_pos h) (rangeCount_le h).1 i)
  refine bind_eq_ok.mpr ⟨(), check_ok.mpr (decide_eq_true rfl), ?_⟩
  refine bind_eq_ok.mpr ⟨_, hlow, bind_eq_ok.mpr ⟨_, hhigh, ?_⟩⟩
  exact bind_eq_ok.mpr ⟨(), check_ok.mpr rfl, bind_eq_ok.mpr ⟨(), check_ok.mpr hlt, rfl⟩⟩

variable {V : Type} [LinearOrder V] {db : Database V} {row : String → Option V}

theorem selected_range {v : V} (hv : row o.splitColumn = some v) (i : ℕ) :
    selected db o (some (cuts o minimum maximum i)) (upper o minimum maximum i) [] row =
      Partitions.within (fun i => (cuts o minimum maximum i : ℚ)) (count o minimum maximum) (db.decimal v) i := by
  simp only [selected, hv, upper, Partitions.within]
  split_ifs with hlast <;> simp [hlast]

def ReadBy (db : Database V) (o : Options) (bigInteger : String → Option ℤ) (splits : List Split)
    (row : String → Option V) (i : ℕ) : Prop :=
  ∃ s reader rows, splits[i]? = some s ∧ createSource o bigInteger s [] = .ok reader ∧
    reader.openAt db [] = .ok (some rows) ∧ row ∈ rows

def FromMinimum (db : Database V) (o : Options) (minimum : ℤ) (row : String → Option V) (v : V) : Prop :=
  row o.splitColumn = some v ∧ (minimum : ℚ) ≤ db.decimal v

theorem reads_iff (hbig : ∀ n : ℤ, bigInteger (toString n) = some n) (h : minimum ≤ maximum) (hserves : Serves db o)
    (hrow : row ∈ db.rows) {v : V} (hv : row o.splitColumn = some v) (i : ℕ) :
    ReadBy db o bigInteger (ranges o minimum maximum) row i ↔
      i < count o minimum maximum ∧ Partitions.within (fun i => (cuts o minimum maximum i : ℚ))
        (count o minimum maximum) (db.decimal v) i = true := by
  have hnone : resumeBoundary o [] = .ok none := rfl
  have hopen : Reader.openAt db ⟨query o (cuts o minimum maximum i) (upper o minimum maximum i) none, o.resumeColumn,
      none⟩ [] = _ := openAt_query hnone
  rw [execute_query hnone hserves] at hopen
  rw [ReadBy, getElem?_ranges, ← selected_range hv]
  constructor
  · rintro ⟨s, reader, rows, hs, hcreate, hread, hmem⟩
    split_ifs at hs with hi
    cases hs
    rw [createSource_range hbig h] at hcreate
    cases hcreate
    rw [hopen] at hread
    cases hread
    exact ⟨hi, (List.mem_filter.mp ((List.mem_insertionSort _).mp hmem)).2⟩
  · rintro ⟨hi, hselected⟩
    exact ⟨_, _, _, if_pos hi, createSource_range hbig h i, hopen,
      (List.mem_insertionSort _).mpr (List.mem_filter.mpr ⟨hrow, hselected⟩)⟩

theorem serves_of_readBy (hbig : ∀ n : ℤ, bigInteger (toString n) = some n) (h : minimum ≤ maximum) {i : ℕ}
    (hread : ReadBy db o bigInteger (ranges o minimum maximum) row i) : Serves db o := by
  obtain ⟨s, reader, rows, hs, hcreate, hopen, -⟩ := hread
  rw [getElem?_ranges] at hs
  split_ifs at hs
  cases hs
  rw [createSource_range hbig h] at hcreate
  cases hcreate
  have hnone : resumeBoundary o [] = .ok none := rfl
  rw [openAt_query hnone] at hopen
  exact serves_of_execute hnone (Except.ok.inj hopen)

/-- Ranges with increasing bounds from the minimum on, the last one without an upper bound. In a database with a row
from the minimum on, every such row is read by the source of exactly one range if and only if the database has the
configured names and reserves none of them. -/
structure Partitioned (o : Options) (bigInteger : String → Option ℤ) (minimum maximum : ℤ) (splits : List Split)
    (cut : ℕ → ℤ) : Prop where
  count : splits ≠ [] ∧ splits.length ≤ o.splitCount
  ends : cut 0 = minimum ∧ cut splits.length = maximum + 1
  ranges : ∀ i < splits.length, cut i < cut (i + 1) ∧ ∃ s, splits[i]? = some s ∧ s.start = position o (cut i) ∧
    s.stop = if i + 1 = splits.length then [] else position o (cut (i + 1))
  rows : ∀ (V : Type) [LinearOrder V] (db : Database V), (∃ row ∈ db.rows, ∃ v, FromMinimum db o minimum row v) →
    ((∀ row ∈ db.rows, ∀ v, FromMinimum db o minimum row v → ∃! i : ℕ, ReadBy db o bigInteger splits row i) ↔ Serves db o)

def reservedOptions : Options := ⟨"t", "order", none, 2, by decide, by decide, rfl, by decide⟩

def reservedTable : Database ℤ :=
  ⟨fun name => name = "order", "t", ["order"], [fun _ => some 3, fun _ => some 9], fun v => v, fun _ => 0⟩

end AstraSync.JdbcSplitQueries
