import AstraSync.CommitTokens
import AstraSync.JdbcRangeSplits

namespace AstraSync.RowBatches

open ByteStrings CommitTokens CheckpointStore JdbcRangeSplits

structure RowBatch where
  rows : List SourceRow
  texts : List (List String)
  endOfInput : Bool
  deriving DecidableEq

def cellText (identity : UInt32) : Cell → String
  | .null => "null"
  | .scalar text => text
  | .binary _ => "[B@" ++ String.ofList (Nat.toDigits 16 identity.toNat)

def rowTexts (identity : ℕ → UInt32) (r : SourceRow) : List String :=
  r.cells.zipIdx.map fun c => cellText (identity c.2) c.1

def rowToString (columns texts : List String) : String :=
  "Row\x7b" ++ ", ".intercalate ((columns.zip texts).map fun c => c.1 ++ "=" ++ c.2) ++ "\x7d"

def toString (columns : List String) (batch : RowBatch) : String :=
  "RowBatch\x7brows=[" ++ ", ".intercalate (batch.texts.map (rowToString columns)) ++ "], endOfInput=" ++
    (if batch.endOfInput then "true" else "false") ++ "\x7d"

def sha256Digest (sha256 : Bytes → Bytes) (columns : List String) (batch : RowBatch) : Bytes :=
  hexDigest sha256 (utf8 (toString columns batch))

variable {K : Type} (src : Source K)

def readBatch (identity : ℕ → ℕ → UInt32) (remaining : List SourceRow) (maxRows : ℕ) : RowBatch where
  rows := remaining.take maxRows
  texts := (remaining.take maxRows).zipIdx.map fun r => rowTexts (identity r.2) r.1
  endOfInput := remaining.length < maxRows

def positionAfter (batch : RowBatch) : Option SplitPosition :=
  match batch.rows.getLast?, batch.texts.getLast? with
  | some r, some texts =>
    if resumeCell src r = .null then none
    else ((src.columns.zip texts).lookup src.resumeColumn).map fun text => [(src.resumeColumn, text)]
  | _, _ => none

theorem lookup_texts {identity : ℕ → UInt32} {columns : List String} {cells : List Cell} {column text : String}
    {k : ℕ} (h : (columns.zip cells).lookup column = some (.scalar text)) :
    (columns.zip ((cells.zipIdx k).map fun c => cellText (identity c.2) c.1)).lookup column = some text := by
  induction columns generalizing cells k with
  | nil => cases h
  | cons name columns ih =>
    cases cells with
    | nil => cases h
    | cons =>
      simp only [List.zipIdx_cons, List.map_cons, List.zip_cons_cons, List.lookup_cons] at h ⊢
      cases hname : column == name with
      | true =>
        rw [hname] at h
        cases h
        rfl
      | false =>
        rw [hname] at h
        exact ih h

theorem positionAfter_readBatch {identity : ℕ → ℕ → UInt32} {remaining before : List SourceRow} {maxRows : ℕ}
    {r : SourceRow} {text : String} (hrows : remaining.take maxRows = before ++ [r])
    (hcell : resumeCell src r = .scalar text) :
    positionAfter src (readBatch identity remaining maxRows) = some [(src.resumeColumn, text)] := by
  have hlookup : (src.columns.zip r.cells).lookup src.resumeColumn = some (.scalar text) := by
    unfold resumeCell at hcell
    cases hl : (src.columns.zip r.cells).lookup src.resumeColumn with
    | none => simp [hl] at hcell
    | some => simpa [hl] using hcell
  have htexts : (src.columns.zip (rowTexts (identity before.length) r)).lookup src.resumeColumn = some text :=
    lookup_texts hlookup
  have hlast : (readBatch identity remaining maxRows).rows.getLast? = some r := by
    simp [readBatch, hrows]
  have hlastTexts : (readBatch identity remaining maxRows).texts.getLast? =
      some (rowTexts (identity before.length) r) := by
    simp [readBatch, hrows, List.zipIdx_append]
  have hne : resumeCell src r ≠ .null := by rw [hcell]; exact Cell.noConfusion
  simp only [positionAfter, hlast, hlastTexts, if_neg hne, htexts, Option.map_some]

end AstraSync.RowBatches
