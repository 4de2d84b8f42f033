import AstraSync.DispatchStore
import AstraSync.Library.SignedNumerals

namespace AstraSync.ExecutionResources

open ByteStrings SignedNumerals DispatchStore

inductive Kind
  | secret
  | service
  | statefulSet
  | job
  deriving DecidableEq

structure Labels where
  (jobUID epoch component managedBy : Bytes)
  deriving DecidableEq

structure Resource where
  kind : Kind
  name : Bytes
  labels : Labels
  deriving DecidableEq

inductive Part
  | jobSpec
  | credentials
  | workerService
  | worker
  | coordinator
  deriving DecidableEq

def Part.kind : Part → Kind
  | .jobSpec | .credentials => .secret
  | .workerService => .service
  | .worker => .statefulSet
  | .coordinator => .job

def Part.component : Part → Bytes
  | .jobSpec => lit "job-spec"
  | .credentials => lit "execution-credentials"
  | .workerService => lit "worker-service"
  | .worker => lit "worker"
  | .coordinator => lit "coordinator"

def Part.suffix : Part → Bytes
  | .jobSpec => lit "-spec"
  | .credentials => lit "-credentials"
  | .workerService | .worker => lit "-worker"
  | .coordinator => lit "-coordinator"

def dash : UInt8 := 45

def hexDigits : Bytes := lit "0123456789abcdef"

def dashed (h : Bytes) : Bytes :=
  h.take 8 ++ dash :: ((h.drop 8).take 4 ++ dash :: ((h.drop 12).take 4 ++ dash ::
    ((h.drop 16).take 4 ++ dash :: h.drop 20)))

def canonicalUUID (s : Bytes) : Bool :=
  let h := s.filter (· ≠ dash)
  h.length = 32 && s.all (fun b => b = dash || hexDigits.contains b) && s = dashed h

def runtimeID (jobUID : Bytes) : Bytes := lit "job-" ++ (jobUID.map lower).filter (· ≠ dash)

def resourceBase (i : Identity) : Bytes := runtimeID i.jobUID ++ lit "-e" ++ base36 i.epoch.toInt.toNat

def scheduler : Bytes := lit "astrasync-scheduler"

def formatInt (x : Int64) : Bytes := paddedInt 0 x

def labels (i : Identity) (component : Bytes) : Labels := ⟨i.jobUID, formatInt i.epoch, component, scheduler⟩

def partName (i : Identity) (part : Part) : Bytes := resourceBase i ++ part.suffix

def resourceOf (i : Identity) (part : Part) : Resource := ⟨part.kind, partName i part, labels i part.component⟩

def identityOf (l : Labels) : Option Identity := (parseInt l.epoch).map fun epoch => ⟨l.jobUID, epoch⟩

def orphanResource (parseUUID : Bytes → Bool) (l : Labels) (keep : List Identity) : Option Identity :=
  (identityOf l).bind fun i =>
    if i.validate ≠ none ∨ !parseUUID i.jobUID ∨ i ∈ keep then none else some i

structure WellFormed (i : Identity) : Prop where
  uid : canonicalUUID i.jobUID = true
  epoch : 0 < i.epoch

theorem identityOf_labels {i : Identity} (h : 0 < i.epoch) (component : Bytes) :
    identityOf (labels i component) = some i := by
  rw [identityOf, labels, formatInt, parseInt_paddedInt 0 (Int64.le_of_lt h)]
  rfl

theorem orphanResource_some {parseUUID : Bytes → Bool} {l : Labels} {keep : List Identity} {i : Identity}
    (h : orphanResource parseUUID l keep = some i) : identityOf l = some i ∧ i ∉ keep := by
  obtain ⟨j, hj, hif⟩ := Option.bind_eq_some_iff.mp h
  split_ifs at hif with hcond
  cases hif
  exact ⟨hj, fun hmem => hcond (.inr (.inr hmem))⟩

theorem lower_hexDigit {b : UInt8} (h : b = dash ∨ b ∈ hexDigits) : lower b = b := by
  have hall : (dash :: hexDigits).all (fun b => lower b = b) = true := by decide
  exact of_decide_eq_true (List.all_eq_true.mp hall b (List.mem_cons.mpr h))

theorem runtimeID_eq {uid : Bytes} (h : canonicalUUID uid = true) :
    runtimeID uid = lit "job-" ++ uid.filter (· ≠ dash) := by
  simp only [canonicalUUID, Bool.and_eq_true, List.all_eq_true, Bool.or_eq_true, decide_eq_true_eq,
    List.contains_iff_mem] at h
  have hlower : uid.map lower = uid :=
    (List.map_congr_left fun b hb => lower_hexDigit (h.1.2 b hb)).trans (List.map_id _)
  rw [runtimeID, hlower]

theorem runtimeID_length {uid : Bytes} (h : canonicalUUID uid = true) : (runtimeID uid).length = 36 := by
  rw [runtimeID_eq h, List.length_append]
  simp only [canonicalUUID, Bool.and_eq_true, decide_eq_true_eq] at h
  rw [h.1.1]
  rfl

theorem runtimeID_inj {u v : Bytes} (hu : canonicalUUID u = true) (hv : canonicalUUID v = true)
    (h : runtimeID u = runtimeID v) : u = v := by
  rw [runtimeID_eq hu, runtimeID_eq hv] at h
  have hdigits := List.append_cancel_left h
  simp only [canonicalUUID, Bool.and_eq_true, decide_eq_true_eq] at hu hv
  rw [hu.2, hv.2, hdigits]

theorem suffix_dash (part : Part) : ∃ rest, part.suffix = dash :: rest := by
  cases part <;> exact ⟨_, rfl⟩

theorem partName_inj {i j : Identity} {p q : Part} (hi : WellFormed i) (hj : WellFormed j)
    (h : partName i p = partName j q) : i = j := by
  obtain ⟨x, hx⟩ := suffix_dash p
  obtain ⟨y, hy⟩ := suffix_dash q
  simp only [partName, resourceBase, List.append_assoc] at h
  obtain ⟨huid, hrest⟩ := List.append_inj h (by rw [runtimeID_length hi.uid, runtimeID_length hj.uid])
  have hepochs := List.append_cancel_left hrest
  rw [hx, hy] at hepochs
  have hnat := base36_injective (sep_cancel_first (not_mem_base36 (by decide) _) (not_mem_base36 (by decide) _) hepochs).1
  have hepoch : i.epoch = j.epoch := by
    rw [← toInt_ofInt_toNat (Int64.le_of_lt hi.epoch), ← toInt_ofInt_toNat (Int64.le_of_lt hj.epoch), hnat]
  obtain ⟨iu, ie⟩ := i
  obtain ⟨ju, je⟩ := j
  cases runtimeID_inj hi.uid hj.uid huid
  cases hepoch
  rfl

end AstraSync.ExecutionResources
