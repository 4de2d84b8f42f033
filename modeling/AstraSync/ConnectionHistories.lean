import AstraSync.ConnectionRequests

/-!
What becomes of a Connection over all requests: its versions and generations, and its end. A write is always made from
the Connection that is locked, although the candidate was made from an earlier read.
-/

namespace AstraSync.ConnectionHistories

open ByteStrings SignedNumerals Connections ConnectionRepository ConnectionService ConnectionRequests
open Transitions

section

variable {c : Config} {s t : System Store} {e : Event Outside}

def Changing (c : Config) (s : System Store) (e : Event Outside) (kind : MutationKind) (uid : Bytes) : Prop :=
  ∃ n p store result, e = .commit n ∧ s.pending[n]? = some p ∧ p.request.body.kind = kind ∧
    p.request.body.changes = true ∧ (postgres c).apply s.store p.prepared.mutation = .ok (store, result) ∧
    result.outcome = .changed ∧ result.connection.map (·.uid) = some uid

inductive Stepped (c : Config) (s : System Store) (e : Event Outside) (t : System Store) : Prop
  | kept (rows : t.store.rows = s.store.rows) (generations : t.store.generations = s.store.generations)
      (quiet : ∀ kind uid, ¬ Changing c s e kind uid)
  | created (candidate : Connection) (number : candidate.current.number = 1) (new : candidate.uid ∉ s.used)
      (unused : ∀ row ∈ s.store.rows,
        row.uid ≠ candidate.uid ∧ ¬(row.tenantID = candidate.tenantID ∧ row.name = candidate.name))
      (rows : t.store.rows = s.store.rows ++ [rowOf candidate])
      (generations : t.store.generations = s.store.generations ++ [⟨candidate.uid, candidate.current⟩])
      (quiet : ∀ kind uid, ¬ Changing c s e kind uid)
  | changed (kind : MutationKind) (tenantID name : Bytes) (current next : Connection)
      (scan : scanConnection c.toContext s.store tenantID name = .ok current) (successor : Successor current next)
      (derived : Derived kind (some current) next) (written : Written c.toContext current next s.store t.store)
      (changing : ∀ kind' uid, Changing c s e kind' uid ↔ kind' = kind ∧ uid = current.uid)
  | deleted (tenantID name : Bytes) (current : Connection)
      (scan : scanConnection c.toContext s.store tenantID name = .ok current)
      (counts : referenceCounts s.store current.uid = ⟨0, 0, 0, 0⟩)
      (rows : t.store.rows =
        s.store.rows.filter fun row => !(row.tenantID = current.tenantID && row.name = current.name))
      (generations : t.store.generations = s.store.generations.filter (·.connectionUID ≠ current.uid))
      (quiet : ∀ kind uid, ¬ Changing c s e kind uid)

theorem read_locked {read locked next : Connection} (hreads : Reads s read) (hlocked : Holds s.store locked)
    (hsuccessor : Successor read next) (huid : next.uid = locked.uid) (hnext : next.version = locked.version + 1)
    (hpos : 0 < next.version) : read = locked := by
  rcases hreads.later locked hlocked (huid.symm.trans hsuccessor.uid) with heq | hlt
  · exact heq.symm
  · have hlocked := toInt_succ (hnext ▸ hpos)
    rcases hsuccessor.version with rfl | hsucc
    · rw [hnext, Int64.lt_iff_toInt_lt] at hlt
      omega
    · rw [hsucc, Int64.add_left_inj] at hnext
      exact absurd hlt (hnext ▸ Int64.lt_irrefl)

variable {n : ℕ} {p : Pending}

theorem quiet_of_kind (hp : s.pending[n]? = some p) (hkind : p.request.body.changes = false)
    (kind : MutationKind) (uid : Bytes) : ¬ Changing c s (.commit n) kind uid := by
  rintro ⟨n', p', store, result, he, hp', -, hchanges, -⟩
  cases he
  rw [hp] at hp'
  cases hp'
  rw [hkind] at hchanges
  cases hchanges

variable {result : MutationResult}

theorem quiet_of_outcome {store : Store}
    (hp : s.pending[n]? = some p) (happly : (postgres c).apply s.store p.prepared.mutation = .ok (store, result))
    (houtcome : result.outcome ≠ .changed) (kind : MutationKind) (uid : Bytes) :
    ¬ Changing c s (.commit n) kind uid := by
  rintro ⟨n', p', store', result', he, hp', -, -, happly', hchanged, -⟩
  cases he
  rw [hp] at hp'
  cases hp'
  rw [happly] at happly'
  cases happly'
  exact houtcome hchanged

def AllDerived (s : System Store) : Prop :=
  ∀ p ∈ s.pending, ∀ next, p.prepared.mutation.candidate = some next →
    Derived p.request.body.kind p.prepared.read next

theorem made_kind (hmade : AllMade c s) (hp : p ∈ s.pending) : p.prepared.mutation.kind = p.request.body.kind := by
  obtain ⟨get, actorID, -, hmade⟩ := hmade p hp
  exact hmade.kind

theorem update_stepped {store next : Store} {pending : List Pending}
    {used : List Bytes} (hinv : Inv s) (hmade : AllMade c s) (hderived : AllDerived s) (hp : s.pending[n]? = some p)
    (hchanges : p.request.body.changes = true)
    (happly : (postgres c).apply s.store p.prepared.mutation = .ok (store, result))
    (hupdate : ConnectionRepository.updateConnection c.toContext s.store p.prepared.mutation = .ok (next, result))
    (hrows : store.rows = next.rows) (hgenerations : store.generations = next.generations) :
    Stepped c s (.commit n) ⟨store, pending, used⟩ := by
  have hmem := List.mem_of_getElem? hp
  obtain ⟨locked, candidate, hscan, -, hcandidate, hsame, hreturned, ⟨-, rfl, houtcome⟩ | ⟨hwritten, houtcome⟩⟩ :=
    updateConnection_ok hupdate
  · refine .kept hrows hgenerations (quiet_of_outcome hp happly ?_)
    rw [houtcome]
    decide
  · obtain ⟨actorID, read, candidate', hread, hbuilt, hsuccessor, -⟩ := made_change hchanges (hmade p hmem)
    rw [hbuilt.candidate] at hcandidate
    cases hcandidate
    have huid := (sameConnection_spec hsame).1.1
    have heq : read = locked := read_locked (hinv.reads p hmem read hread) (scanConnection_holds hscan) hsuccessor huid
      hwritten.next (validate_positive hwritten.valid).1
    subst heq
    have hkind := hderived p hmem _ hbuilt.candidate
    rw [hread] at hkind
    refine .changed _ _ _ read candidate hscan hsuccessor hkind (hwritten.congr hrows hgenerations) fun kind' uid => ?_
    constructor
    · rintro ⟨n', p', store', result', he, hp', hkind', -, happly', -, hreturned'⟩
      cases he
      rw [hp] at hp'
      cases hp'
      rw [happly] at happly'
      cases happly'
      rw [hreturned] at hreturned'
      refine ⟨hkind'.symm, ?_⟩
      rw [← huid]
      exact (Option.some.inj hreturned').symm
    · rintro ⟨rfl, rfl⟩
      refine ⟨n, p, store, result, rfl, hp, rfl, hchanges, happly, houtcome, ?_⟩
      rw [hreturned, Option.map_some, huid]

theorem commit_stepped (hinv : Inv s) (hmade : AllMade c s) (hderived : AllDerived s)
    (hp : s.pending[n]? = some p) (hfresh : fresh s (.commit n : Event Outside) = true) :
    Stepped c s (.commit n) (commit (postgres c) s n p) := by
  have hmem := List.mem_of_getElem? hp
  have hkind := made_kind hmade hmem
  unfold commit
  split
  · next message happly =>
    refine .kept rfl rfl ?_
    rintro kind uid ⟨n', p', store, result, he, hp', -, -, happly', -⟩
    cases he
    rw [hp] at hp'
    cases hp'
    rw [happly] at happly'
    cases happly'
  · next store result happly =>
    obtain ⟨-, ⟨kept, -, rfl, rfl⟩ | ⟨-, next, hmutation, hrows, hgenerations, -⟩⟩ := apply_ok happly
    · exact .kept rfl rfl (quiet_of_outcome hp happly (by simp [replayed]))
    unfold applyMutation at hmutation
    rw [hkind] at hmutation
    split at hmutation
    · next hcreate =>
      obtain ⟨candidate, hcandidate, -, hunused, -, rfl, -⟩ := createConnection_ok hmutation
      have hfirst := hderived p hmem candidate hcandidate
      rw [hcreate] at hfirst
      have hnumber : candidate.current.number = 1 := by
        cases hread : p.prepared.read with
        | none =>
          rw [hread] at hfirst
          cases hfirst with
          | created version number => exact number
        | some =>
          rw [hread] at hfirst
          cases hfirst
      have hnew : candidate.uid ∉ s.used := by
        have hall : ∀ uid ∈ createdUID p.prepared.mutation, uid ∉ s.used := by simpa [fresh, hp] using hfresh
        exact hall candidate.uid (by simp [createdUID, hkind, hcreate, hcandidate])
      exact .created candidate hnumber hnew hunused hrows hgenerations
        (quiet_of_kind hp (by simp [Body.changes, hcreate]))
    iterate 4
      · next h =>
        have hchanges : p.request.body.changes = true := by simp [Body.changes, h]
        exact update_stepped hinv hmade hderived hp hchanges happly hmutation hrows hgenerations
    · next h =>
      obtain ⟨current, hscan, -, -, hcounts, -, rfl, -⟩ := deleteConnection_ok hmutation
      exact .deleted _ _ current hscan hcounts hrows hgenerations (quiet_of_kind hp (by simp [Body.changes, h]))
    · next h =>
      obtain ⟨current, test, -, -, -, -, -, rfl, -⟩ := createConnectionTest_ok hmutation
      exact .kept hrows hgenerations (quiet_of_kind hp (by simp [Body.changes, h]))

theorem step_stepped (hinv : Inv s) (hmade : AllMade c s) (hderived : AllDerived s) (hfresh : fresh s e = true)
    (hstep : step c (postgres c) s e = some t) : Stepped c s e t := by
  cases e with
  | receive =>
    cases hstep
    unfold receive
    split <;> exact .kept rfl rfl (by rintro kind uid ⟨n, p, store, result, he, -⟩; cases he)
  | commit =>
    obtain ⟨p, hp, rfl⟩ := Option.map_eq_some_iff.mp hstep
    exact commit_stepped hinv hmade hderived hp hfresh
  | outside o =>
    cases hstep
    cases o <;> exact .kept rfl rfl (by rintro kind uid ⟨n, p, store, result, he, -⟩; cases he)

end

section

variable {c : Context} {s t : Store} {used : List Bytes} {tenantID name : Bytes} {current next : Connection}

theorem scan_row (hscan : scanConnection c s tenantID name = .ok current) :
    ∃ row ∈ s.rows, row.uid = current.uid ∧ row.tenantID = current.tenantID ∧ row.name = current.name ∧
      row.version = current.version ∧ row.currentGeneration = current.current.number := by
  obtain ⟨row, g, hfind, hg, rfl⟩ := scanConnection_ok hscan
  exact ⟨row, (find_some hfind).1, rfl, rfl, rfl, rfl, (findGeneration_number hg).symm⟩

theorem written_rows (hs : Sound used s) (hscan : scanConnection c s tenantID name = .ok current)
    (hsuccessor : Successor current next) (hwritten : Written c current next s t) {row' : ConnectionRow}
    (hrow' : row' ∈ t.rows) :
    (row' ∈ s.rows ∧ row'.uid ≠ current.uid) ∨
      ∃ row ∈ s.rows, row.uid = current.uid ∧ row.version = current.version ∧
        row.currentGeneration = current.current.number ∧ row' = row.write next := by
  rw [hwritten.rows] at hrow'
  obtain ⟨row, hrow, rfl⟩ := List.mem_map.mp hrow'
  obtain ⟨locked, hlocked, huid, htenant, hname, hversion, hnumber⟩ := scan_row hscan
  by_cases hsame : row.uid = current.uid
  · cases hs.row_of_uid hrow hlocked (hsame.trans huid.symm)
    refine .inr ⟨row, hrow, hsame, hversion, hnumber, if_pos ⟨?_, ?_, hversion, ?_⟩⟩
    · rw [hsuccessor.tenantID, htenant]
    · rw [hsuccessor.name, hname]
    · rw [hsuccessor.uid, hsame]
  · have hkept : updateRow current next row = row := by
      refine if_neg fun h => hsame ?_
      rw [← hsuccessor.uid]
      exact h.2.2.2
    rw [hkept]
    exact .inl ⟨hrow, hsame⟩

theorem deleted_rows (hs : Sound used s) (hnames : (s.rows.map fun row => (row.tenantID, row.name)).Nodup)
    (hscan : scanConnection c s tenantID name = .ok current) {row : ConnectionRow} (hrow : row ∈ s.rows) :
    row ∈ s.rows.filter (fun row => !(row.tenantID = current.tenantID && row.name = current.name)) ↔
      row.uid ≠ current.uid := by
  constructor
  · intro h
    exact hs.other_uid hscan hrow (List.mem_filter.mp h).2
  · intro huid
    refine List.mem_filter.mpr ⟨hrow, ?_⟩
    rw [Bool.not_eq_true', Bool.and_eq_false_iff, decide_eq_false_iff_not, decide_eq_false_iff_not, ← not_and_or]
    rintro ⟨htenant, hname⟩
    obtain ⟨locked, hlocked, hlockeduid, hlockedtenant, hlockedname, -⟩ := scan_row hscan
    have heq : row = locked := List.inj_on_of_nodup_map hnames hrow hlocked
      (by rw [htenant, hname, hlockedtenant, hlockedname])
    exact huid (heq ▸ hlockeduid)

end

section

def numbers (generations : List GenerationRow) (uid : Bytes) : List ℤ :=
  (generations.filter (·.connectionUID = uid)).map (·.generation.number.toInt)

def upTo (n : Int64) : List ℤ := (List.range' 1 n.toInt.toNat).map fun i : ℕ => (i : ℤ)

variable {generations : List GenerationRow} {uid uid' : Bytes} {g : Generation}

theorem numbers_other (h : uid' ≠ uid) : numbers (generations ++ [⟨uid', g⟩]) uid = numbers generations uid := by
  simp [numbers, List.filter_append, h]

theorem numbers_own : numbers (generations ++ [⟨uid, g⟩]) uid = numbers generations uid ++ [g.number.toInt] := by
  simp [numbers, List.filter_append]

theorem numbers_filter (h : uid ≠ uid') :
    numbers (generations.filter (·.connectionUID ≠ uid')) uid = numbers generations uid := by
  rw [numbers, List.filter_filter]
  congr 2
  funext g
  by_cases hg : g.connectionUID = uid
  · simp [hg, h]
  · simp [hg]

theorem upTo_succ {n : Int64} (hn : 0 < n) (h : 0 < n + 1) : upTo (n + 1) = upTo n ++ [(n + 1).toInt] := by
  have hpos : 0 < n.toInt := by
    rw [Int64.lt_iff_toInt_lt] at hn
    exact hn
  have hsucc := toInt_succ h
  have hnat : (n + 1).toInt.toNat = n.toInt.toNat + 1 := by omega
  rw [upTo, hnat, List.range'_1_concat, List.map_append]
  refine congrArg (upTo n ++ ·) ?_
  simp only [List.map_cons, List.map_nil, List.cons.injEq, and_true]
  omega

theorem upTo_nodup (n : Int64) : (upTo n).Nodup :=
  List.Nodup.map Nat.cast_injective List.nodup_range'

structure Numbered (s : Store) : Prop where
  names : (s.rows.map fun row => (row.tenantID, row.name)).Nodup
  positive : ∀ row ∈ s.rows, 0 < row.currentGeneration
  numbers : ∀ row ∈ s.rows, ConnectionHistories.numbers s.generations row.uid = upTo row.currentGeneration
  owned : ∀ g ∈ s.generations, ∃ row ∈ s.rows, row.uid = g.connectionUID

variable {c : Context} {s t : Store} {used : List Bytes} {tenantID name : Bytes} {candidate current next : Connection}

theorem Numbered.absent (h : Numbered s) (hunused : ∀ row ∈ s.rows, row.uid ≠ uid) :
    ConnectionHistories.numbers s.generations uid = [] := by
  rw [ConnectionHistories.numbers, List.map_eq_nil_iff, List.filter_eq_nil_iff]
  intro g hg
  obtain ⟨row, hrow, huid⟩ := h.owned g hg
  rw [← huid, decide_eq_true_iff]
  exact hunused row hrow

theorem Numbered.created (h : Numbered s) (hnumber : candidate.current.number = 1)
    (hunused : ∀ row ∈ s.rows,
      row.uid ≠ candidate.uid ∧ ¬(row.tenantID = candidate.tenantID ∧ row.name = candidate.name))
    (hrows : t.rows = s.rows ++ [rowOf candidate])
    (hgenerations : t.generations = s.generations ++ [⟨candidate.uid, candidate.current⟩]) : Numbered t := by
  constructor
  · rw [hrows, List.map_append, List.nodup_append]
    refine ⟨h.names, List.nodup_singleton _, fun key hkey key' hkey' heq => ?_⟩
    obtain ⟨row, hrow, rfl⟩ := List.mem_map.mp hkey
    rw [List.map_singleton, List.mem_singleton] at hkey'
    exact (hunused row hrow).2 (Prod.mk.inj (heq.trans hkey'))
  · intro row hrow
    rw [hrows] at hrow
    rcases List.mem_append.mp hrow with hrow | hrow
    · exact h.positive row hrow
    · rw [List.mem_singleton.mp hrow]
      change 0 < candidate.current.number
      rw [hnumber]
      decide
  · intro row hrow
    rw [hrows] at hrow
    rw [hgenerations]
    rcases List.mem_append.mp hrow with hrow | hrow
    · rw [numbers_other (hunused row hrow).1.symm]
      exact h.numbers row hrow
    · rw [List.mem_singleton.mp hrow]
      change ConnectionHistories.numbers _ candidate.uid = upTo candidate.current.number
      rw [numbers_own, h.absent fun row hrow => (hunused row hrow).1, hnumber]
      decide
  · intro g hg
    rw [hgenerations] at hg
    rw [hrows]
    rcases List.mem_append.mp hg with hg | hg
    · obtain ⟨row, hrow, huid⟩ := h.owned g hg
      exact ⟨row, List.mem_append_left _ hrow, huid⟩
    · rw [List.mem_singleton.mp hg]
      exact ⟨rowOf candidate, List.mem_append_right _ List.mem_cons_self, rfl⟩

theorem Numbered.next_numbers (h : Numbered s) {row : ConnectionRow} (hrow : row ∈ s.rows)
    (hnumber : row.currentGeneration = current.current.number) (huid : row.uid = next.uid)
    (hwritten : Written c current next s t) :
    ConnectionHistories.numbers t.generations row.uid = upTo next.current.number := by
  have hbefore := h.numbers row hrow
  rw [hnumber] at hbefore
  rcases hwritten.generations with ⟨hsame, heq⟩ | ⟨hnext, -, heq⟩
  · rw [heq, hsame]
    exact hbefore
  · have hpos := h.positive row hrow
    rw [hnumber] at hpos
    rw [heq, huid, numbers_own, ← huid, hbefore, hnext, upTo_succ hpos (hnext ▸ (validate_positive hwritten.valid).2)]

theorem Numbered.other_numbers (h : Numbered s) {row : ConnectionRow} (hrow : row ∈ s.rows) (huid : next.uid ≠ row.uid)
    (hwritten : Written c current next s t) :
    ConnectionHistories.numbers t.generations row.uid = upTo row.currentGeneration := by
  rw [← h.numbers row hrow]
  rcases hwritten.generations with ⟨-, heq⟩ | ⟨-, -, heq⟩
  · rw [heq]
  · rw [heq, numbers_other huid]

theorem Numbered.changed (h : Numbered s) (hs : Sound used s) (hscan : scanConnection c s tenantID name = .ok current)
    (hsuccessor : Successor current next) (hwritten : Written c current next s t) : Numbered t := by
  constructor
  · have hkeys : (s.rows.map (updateRow current next)).map (fun row => (row.tenantID, row.name)) =
        s.rows.map fun row => (row.tenantID, row.name) := by
      rw [List.map_map]
      refine List.map_congr_left fun row _ => ?_
      simp only [Function.comp, updateRow]
      split_ifs <;> rfl
    rw [hwritten.rows, hkeys]
    exact h.names
  · intro row' hrow'
    rcases written_rows hs hscan hsuccessor hwritten hrow' with ⟨hrow, -⟩ | ⟨row, -, -, -, -, rfl⟩
    · exact h.positive row' hrow
    · exact (validate_positive hwritten.valid).2
  · intro row' hrow'
    rcases written_rows hs hscan hsuccessor hwritten hrow' with ⟨hrow, hother⟩ | ⟨row, hrow, huid, -, hnumber, rfl⟩
    · exact h.other_numbers hrow (fun heq => hother (heq ▸ hsuccessor.uid)) hwritten
    · change ConnectionHistories.numbers t.generations row.uid = upTo next.current.number
      exact h.next_numbers hrow hnumber (huid.trans hsuccessor.uid.symm) hwritten
  · intro g hg
    have hwas : ∃ row ∈ s.rows, row.uid = g.connectionUID := by
      rcases hwritten.generations with ⟨-, heq⟩ | ⟨-, -, heq⟩
      · exact h.owned g (heq ▸ hg)
      · rw [heq] at hg
        rcases List.mem_append.mp hg with hg | hg
        · exact h.owned g hg
        · obtain ⟨row, hrow, huid, -⟩ := scan_row hscan
          rw [List.mem_singleton.mp hg]
          exact ⟨row, hrow, huid.trans hsuccessor.uid.symm⟩
    obtain ⟨row, hrow, huid⟩ := hwas
    refine ⟨updateRow current next row, ?_, (updateRow_uid _ _ _).trans huid⟩
    rw [hwritten.rows]
    exact List.mem_map_of_mem hrow

theorem Numbered.deleted (h : Numbered s) (hs : Sound used s) (hscan : scanConnection c s tenantID name = .ok current)
    (hrows : t.rows = s.rows.filter fun row => !(row.tenantID = current.tenantID && row.name = current.name))
    (hgenerations : t.generations = s.generations.filter (·.connectionUID ≠ current.uid)) : Numbered t := by
  have hother : ∀ row ∈ t.rows, row ∈ s.rows ∧ row.uid ≠ current.uid := by
    intro row hrow
    rw [hrows] at hrow
    have hmem := List.mem_of_mem_filter hrow
    exact ⟨hmem, (deleted_rows hs h.names hscan hmem).mp hrow⟩
  constructor
  · rw [hrows]
    exact h.names.sublist (List.filter_sublist.map _)
  · exact fun row hrow => h.positive row (hother row hrow).1
  · intro row hrow
    rw [hgenerations, numbers_filter (hother row hrow).2]
    exact h.numbers row (hother row hrow).1
  · intro g hg
    rw [hgenerations, List.mem_filter, decide_eq_true_iff] at hg
    obtain ⟨row, hrow, huid⟩ := h.owned g hg.1
    rw [hrows]
    exact ⟨row, (deleted_rows hs h.names hscan hrow).mpr (huid ▸ hg.2), huid⟩

theorem Numbered.step {c : Config} {s t : System Store} {e : Event Outside} (h : Numbered s.store)
    (hs : Sound s.used s.store) (hstep : Stepped c s e t) : Numbered t.store := by
  cases hstep with
  | kept rows generations quiet =>
    constructor
    · rw [rows]
      exact h.names
    · rw [rows]
      exact h.positive
    · rw [rows, generations]
      exact h.numbers
    · rw [rows, generations]
      exact h.owned
  | created candidate number new unused rows generations quiet => exact h.created number unused rows generations
  | changed kind tenantID name current next scan successor derived written changing =>
    exact h.changed hs scan successor written
  | deleted tenantID name current scan counts rows generations quiet => exact h.deleted hs scan rows generations

end

section

variable {c : Config} {s t : System Store} {e : Event Outside} {g : GenerationRow}

structure Frozen (g : GenerationRow) (s : System Store) : Prop where
  used : g.connectionUID ∈ s.used
  same : ∀ g' ∈ s.store.generations, g'.connectionUID = g.connectionUID →
    g'.generation.number = g.generation.number → g' = g
  stays : g ∈ s.store.generations ∨ ∀ row ∈ s.store.rows, row.uid ≠ g.connectionUID

theorem Numbered.frozen (h : Numbered s.store) (hs : Sound s.used s.store) (hg : g ∈ s.store.generations) :
    Frozen g s := by
  obtain ⟨row, hrow, huid⟩ := h.owned g hg
  refine ⟨huid ▸ hs.used row hrow, fun g' hg' huid' hnumber => ?_, .inl hg⟩
  have hnodup : ((s.store.generations.filter (·.connectionUID = row.uid)).map (·.generation.number.toInt)).Nodup := by
    rw [show List.map _ _ = _ from h.numbers row hrow]
    exact upTo_nodup _
  apply List.inj_on_of_nodup_map hnodup
  · exact List.mem_filter.mpr ⟨hg', by simp [huid', huid]⟩
  · exact List.mem_filter.mpr ⟨hg, by simp [huid]⟩
  · rw [hnumber]

theorem findGeneration_none {generations : List GenerationRow} {uid : Bytes} {number : Int64}
    (h : findGeneration generations uid number = none) (hg : g ∈ generations) (huid : g.connectionUID = uid) :
    g.generation.number ≠ number := by
  have hall := List.find?_eq_none.mp h g hg
  simpa [huid] using hall

theorem Frozen.step (h : Frozen g s) (hused : ∀ uid ∈ s.used, uid ∈ t.used) (hnumbered : Numbered s.store)
    (hs : Sound s.used s.store) (hstep : Stepped c s e t) : Frozen g t := by
  refine ⟨hused _ h.used, ?_, ?_⟩
  · intro g' hg' huid hnumber
    cases hstep with
    | kept rows generations quiet => exact h.same g' (generations ▸ hg') huid hnumber
    | created candidate number new unused rows generations quiet =>
      rw [generations] at hg'
      rcases List.mem_append.mp hg' with hg' | hg'
      · exact h.same g' hg' huid hnumber
      · rw [List.mem_singleton.mp hg'] at huid
        change candidate.uid = _ at huid
        exact absurd (huid ▸ h.used) new
    | changed kind tenantID name current next scan successor derived written changing =>
      rcases written.generations with ⟨-, heq⟩ | ⟨-, hfirst, heq⟩
      · exact h.same g' (heq ▸ hg') huid hnumber
      · rw [heq] at hg'
        rcases List.mem_append.mp hg' with hg' | hg'
        · exact h.same g' hg' huid hnumber
        · -- the Connection is there, and the number is not taken
          rw [List.mem_singleton.mp hg'] at huid hnumber
          rcases h.stays with hstored | hgone
          · exact absurd hnumber.symm (findGeneration_none hfirst hstored huid.symm)
          · obtain ⟨row, hrow, hrowuid, -⟩ := scan_row scan
            exact absurd (hrowuid.trans (successor.uid.symm.trans huid)) (hgone row hrow)
    | deleted tenantID name current scan counts rows generations quiet =>
      rw [generations] at hg'
      exact h.same g' (List.mem_of_mem_filter hg') huid hnumber
  · cases hstep with
    | kept rows generations quiet =>
      rw [rows, generations]
      exact h.stays
    | created candidate number new unused rows generations quiet =>
      rw [rows, generations]
      rcases h.stays with hstored | hgone
      · exact .inl (List.mem_append_left _ hstored)
      · refine .inr fun row hrow => ?_
        rcases List.mem_append.mp hrow with hrow | hrow
        · exact hgone row hrow
        · rw [List.mem_singleton.mp hrow]
          rintro (huid : candidate.uid = _)
          exact new (huid ▸ h.used)
    | changed kind tenantID name current next scan successor derived written changing =>
      rcases h.stays with hstored | hgone
      · rcases written.generations with ⟨-, heq⟩ | ⟨-, -, heq⟩
        · exact .inl (heq ▸ hstored)
        · exact .inl (heq ▸ List.mem_append_left _ hstored)
      · refine .inr fun row' hrow' => ?_
        rw [written.rows] at hrow'
        obtain ⟨row, hrow, rfl⟩ := List.mem_map.mp hrow'
        rw [updateRow_uid]
        exact hgone row hrow
    | deleted tenantID name current scan counts rows generations quiet =>
      rw [rows, generations]
      rcases h.stays with hstored | hgone
      · by_cases huid : g.connectionUID = current.uid
        · refine .inr fun row hrow => ?_
          rw [huid]
          exact (deleted_rows hs hnumbered.names scan (List.mem_of_mem_filter hrow)).mp hrow
        · exact .inl (List.mem_filter.mpr ⟨hstored, decide_eq_true huid⟩)
      · exact .inr fun row hrow => hgone row (List.mem_of_mem_filter hrow)

def Unreferenced (s : Store) (uid : Bytes) : Prop :=
  (∀ r ∈ s.references, r.connectionUID = uid → r.kind ≠ .job ∧ r.kind ≠ .execution ∧ r.kind ≠ .cleanupPending) ∧
    ∀ test ∈ s.tests, test.connectionUID = uid → test.state.active = false

structure Progress (c : Config) (s : System Store) (e : Event Outside) (t : System Store) : Prop where
  version : ∀ row ∈ s.store.rows, ∀ row' ∈ t.store.rows, row'.uid = row.uid →
    ((∃ kind, Changing c s e kind row.uid) → row'.version.toInt = row.version.toInt + 1) ∧
      ((∀ kind, ¬ Changing c s e kind row.uid) → row'.version = row.version)
  content : ∀ stored stored', Holds s.store stored → Holds t.store stored' → stored'.uid = stored.uid →
    stored'.current.content ≠ stored.current.content →
      stored.state = .disabled ∧ stored'.current.number.toInt = stored.current.number.toInt + 1
  rotation : ∀ stored stored', Holds s.store stored → Holds t.store stored' → stored'.uid = stored.uid →
    Changing c s e .rotate stored.uid →
      stored'.current.number.toInt = stored.current.number.toInt + 1 ∧
        stored'.current.content = stored.current.content ∧
        stored'.current.secretLocator ≠ stored.current.secretLocator
  deletion : ∀ row ∈ s.store.rows, (∀ row' ∈ t.store.rows, row'.uid ≠ row.uid) → Unreferenced s.store row.uid

theorem referenceCounts_zero {s : Store} {uid : Bytes} (h : referenceCounts s uid = ⟨0, 0, 0, 0⟩) :
    Unreferenced s uid := by
  simp only [referenceCounts, ReferenceCounts.mk.injEq, List.countP_eq_zero, Bool.and_eq_true, decide_eq_true_eq,
    not_and] at h
  obtain ⟨hjobs, hexecutions, htests, hcleanup⟩ := h
  refine ⟨fun r hr huid => ⟨hjobs r hr huid, hexecutions r hr huid, hcleanup r hr huid⟩, fun test htest huid => ?_⟩
  simpa using htests test htest huid

variable {row : ConnectionRow} {used : List Bytes}

theorem holds_stays {s t : Store} (hs : Sound used s) {more : List GenerationRow}
    (hgenerations : t.generations = s.generations ++ more) (hrow : row ∈ s.rows)
    {g : GenerationRow} (hg : findGeneration t.generations row.uid row.currentGeneration = some g) :
    Holds s (row.join g.generation) := by
  rw [hgenerations] at hg
  exact hs.holds_row hrow hg

variable {stored stored' : Connection}

theorem holds_step (hs : Sound s.used s.store) (ht : Sound t.used t.store) (hnumbered : Numbered s.store)
    (hstep : Stepped c s e t) (hstored : Holds s.store stored)
    (hstored' : Holds t.store stored') (huid : stored'.uid = stored.uid) :
    (stored' = stored ∧ ∀ kind, ¬ Changing c s e kind stored.uid) ∨
      ∃ kind, Derived kind (some stored) stored' ∧ stored'.version = stored.version + 1 ∧ 0 < stored'.version ∧
        0 < stored'.current.number ∧ ∀ kind', Changing c s e kind' stored.uid ↔ kind' = kind := by
  have hused := hs.holds_used hstored
  obtain ⟨row', hrow', g', hg', rfl⟩ := hstored'
  change row'.uid = stored.uid at huid
  cases hstep with
  | kept rows generations quiet =>
    have hsame : Holds s.store (row'.join g'.generation) :=
      holds_stays hs (generations.trans (List.append_nil _).symm) (rows ▸ hrow') hg'
    exact .inl ⟨hs.holds_of_uid hsame hstored huid, fun kind => quiet kind _⟩
  | created candidate number new unused rows generations quiet =>
    rw [rows] at hrow'
    rcases List.mem_append.mp hrow' with hrow' | hrow'
    · exact .inl ⟨hs.holds_of_uid (holds_stays hs generations hrow' hg') hstored huid, fun kind => quiet kind _⟩
    · rw [List.mem_singleton.mp hrow'] at huid
      exact absurd hused (huid ▸ new)
  | changed kind tenantID name current next scan successor derived written changing =>
    by_cases hother : stored.uid = current.uid
    · have hcurrent := hs.holds_of_uid hstored (scanConnection_holds scan) hother
      have hnext := scanConnection_holds (written.scan scan successor)
      have hwritten : row'.join g'.generation = next :=
        ht.holds_of_uid ⟨row', hrow', g', hg', rfl⟩ hnext (huid.trans (hother.trans successor.uid.symm))
      rw [hwritten, hcurrent]
      obtain ⟨hversion, hnumber⟩ := validate_positive written.valid
      refine .inr ⟨kind, derived, written.next, hversion, hnumber, ?_⟩
      intro kind'
      rw [changing]
      simp
    · refine .inl ⟨hs.holds_of_uid ?_ hstored huid, fun kind' h => hother ((changing kind' _).mp h).2⟩
      rcases written_rows hs scan successor written hrow' with ⟨hrow, -⟩ | ⟨row, -, hrowuid, -, -, rfl⟩
      · rcases written.generations with ⟨-, heq⟩ | ⟨-, -, heq⟩
        · exact holds_stays hs (heq.trans (List.append_nil _).symm) hrow hg'
        · exact holds_stays hs heq hrow hg'
      · exact absurd (huid.symm.trans hrowuid) hother
  | deleted tenantID name current scan counts rows generations quiet =>
    rw [rows] at hrow'
    have hmem := List.mem_of_mem_filter hrow'
    have hother := (deleted_rows hs hnumbered.names scan hmem).mp hrow'
    rw [generations, findGeneration_filter _ hother] at hg'
    exact .inl ⟨hs.holds_of_uid ⟨row', hmem, g', hg', rfl⟩ hstored huid, fun kind => quiet kind _⟩

theorem holds_of_row {s : Store} (hs : Sound used s) (hrow : row ∈ s.rows) :
    ∃ stored, Holds s stored ∧ stored.uid = row.uid ∧ stored.version = row.version := by
  obtain ⟨g, hg⟩ := hs.joined row hrow
  exact ⟨row.join g.generation, ⟨row, hrow, g, hg, rfl⟩, rfl, rfl⟩

theorem deletion_unreferenced (hnumbered : Numbered s.store) (hs : Sound s.used s.store) (hstep : Stepped c s e t)
    (hrow : row ∈ s.store.rows) (hgone : ∀ row' ∈ t.store.rows, row'.uid ≠ row.uid) :
    Unreferenced s.store row.uid := by
  cases hstep with
  | kept rows generations quiet => exact absurd rfl (hgone row (rows ▸ hrow))
  | created candidate number new unused rows generations quiet =>
    exact absurd rfl (hgone row (rows ▸ List.mem_append_left _ hrow))
  | changed kind tenantID name current next scan successor derived written changing =>
    exact absurd (updateRow_uid current next row) (hgone _ (written.rows ▸ List.mem_map_of_mem hrow))
  | deleted tenantID name current scan counts rows generations quiet =>
    have huid : row.uid = current.uid := by
      by_contra hne
      exact hgone row (rows ▸ (deleted_rows hs hnumbered.names scan hrow).mpr hne) rfl
    rw [huid]
    exact referenceCounts_zero counts

theorem derived_content {kind : MutationKind} (h : Derived kind (some stored) stored')
    (hpos : 0 < stored'.current.number) (hne : stored'.current.content ≠ stored.current.content) :
    stored.state = .disabled ∧ stored'.current.number.toInt = stored.current.number.toInt + 1 := by
  cases h with
  | updated replaced =>
    rcases replaced with hkept | ⟨hdisabled, hnext⟩
    · rw [hkept] at hne
      exact absurd rfl hne
    · rw [hnext] at hpos ⊢
      exact ⟨hdisabled, toInt_succ hpos⟩
  | rotated rotated => exact absurd rotated.content hne
  | enabled kept =>
    rw [kept] at hne
    exact absurd rfl hne
  | disabled kept =>
    rw [kept] at hne
    exact absurd rfl hne

theorem step_progress (hs : Sound s.used s.store) (ht : Sound t.used t.store) (hnumbered : Numbered s.store)
    (hstep : Stepped c s e t) : Progress c s e t where
  version := by
    intro row hrow row' hrow' huid
    obtain ⟨stored, hstored, hsuid, hsversion⟩ := holds_of_row hs hrow
    obtain ⟨stored', hstored', htuid, htversion⟩ := holds_of_row ht hrow'
    have huids : stored'.uid = stored.uid := by rw [htuid, huid, hsuid]
    rw [← hsuid, ← hsversion, ← htversion]
    obtain ⟨rfl, hquiet⟩ | ⟨kind, -, hversion, hpos, -, hchanging⟩ := holds_step hs ht hnumbered hstep hstored hstored' huids
    · exact ⟨fun ⟨kind, hkind⟩ => absurd hkind (hquiet kind), fun _ => rfl⟩
    · refine ⟨fun _ => ?_, fun hquiet => absurd ((hchanging kind).mpr rfl) (hquiet kind)⟩
      rw [hversion] at hpos ⊢
      exact toInt_succ hpos
  content := by
    intro stored stored' hstored hstored' huid hne
    obtain ⟨rfl, -⟩ | ⟨kind, hderived, -, -, hpos, -⟩ := holds_step hs ht hnumbered hstep hstored hstored' huid
    · exact absurd rfl hne
    · exact derived_content hderived hpos hne
  rotation := by
    intro stored stored' hstored hstored' huid hrotation
    obtain ⟨rfl, hquiet⟩ | ⟨kind, hderived, -, -, hpos, hchanging⟩ :=
      holds_step hs ht hnumbered hstep hstored hstored' huid
    · exact absurd hrotation (hquiet _)
    · rw [← (hchanging _).mp hrotation] at hderived
      cases hderived with
      | rotated rotated =>
        refine ⟨?_, rotated.content, rotated.locator⟩
        have hnext := rotated.number
        rw [hnext] at hpos ⊢
        exact toInt_succ hpos
  deletion := fun _ hrow hgone => deletion_unreferenced hnumbered hs hstep hrow hgone

theorem step_used (hstep : step c (postgres c) s e = some t) : ∀ uid ∈ s.used, uid ∈ t.used := by
  intro uid huid
  cases e with
  | receive =>
    cases hstep
    unfold receive
    split <;> exact huid
  | commit =>
    obtain ⟨p, -, rfl⟩ := Option.map_eq_some_iff.mp hstep
    unfold commit
    split
    · exact huid
    · exact List.mem_append_left _ huid
  | outside =>
    cases hstep
    exact huid

structure Sane (c : Config) (s : System Store) : Prop where
  base : Inv s
  made : AllMade c s
  derived : AllDerived s
  numbered : Numbered s.store

theorem Sane.stepped (h : Sane c s) (hfresh : fresh s e = true)
    (hstep : step c (postgres c) s e = some t) : Stepped c s e t :=
  step_stepped h.base h.made h.derived hfresh hstep

theorem Sane.step (s : System Store) (e : Event Outside) (t : System Store) (h : Sane c s) (hfresh : fresh s e = true)
    (hstep : step c (postgres c) s e = some t) : Sane c t where
  base := Inv.step s e t h.base hfresh hstep
  made := AllMade.step s e t h.made hstep
  derived := step_prepared (fun _ _ _ _ hprepare _ hnext => prepare_derived hprepare hnext) s e t h.derived hstep
  numbered := h.numbered.step h.base.sound (h.stepped hfresh hstep)

theorem idle_sane : Sane c (idle emptyStore) := by
  refine ⟨idle_inv, fun p hp => ?_, fun p hp => ?_, ⟨List.nodup_nil, ?_, ?_, ?_⟩⟩
  · cases hp
  · cases hp
  all_goals
    intro x hx
    cases hx

theorem frozen_step {g : GenerationRow} (s : System Store) (e : Event Outside) (t : System Store)
    (h : Sane c s ∧ Frozen g s) (hfresh : fresh s e = true) (hstep : step c (postgres c) s e = some t) :
    Sane c t ∧ Frozen g t :=
  ⟨h.1.step s e t hfresh hstep,
    h.2.step (step_used hstep) h.1.numbered h.1.base.sound (h.1.stepped hfresh hstep)⟩

/-- The stored Connections in every state a run gets to: the generations of each are numbered without gaps and stay
what they are, and each further step does to them what `Progress` says. -/
theorem run_histories {before after : List (Event Outside)}
    (hfresh : meets (step c (postgres c)) fresh (idle emptyStore) (before ++ after) = true)
    (hbefore : run (step c (postgres c)) (idle emptyStore) before = some s)
    (hafter : run (step c (postgres c)) s after = some t) :
    (∀ row ∈ s.store.rows, 0 < row.currentGeneration ∧
      numbers s.store.generations row.uid = upTo row.currentGeneration) ∧
    (∀ g ∈ s.store.generations, ∀ g' ∈ t.store.generations, g'.connectionUID = g.connectionUID →
      g'.generation.number = g.generation.number → g' = g) ∧
    ∀ e u, fresh s e = true → step c (postgres c) s e = some u → Progress c s e u := by
  obtain ⟨hmeets, hmeets'⟩ := meets_append hfresh hbefore
  have hsane : Sane c s := run_invariant Sane.step idle_sane hmeets hbefore
  refine ⟨fun row hrow => ⟨hsane.numbered.positive row hrow, hsane.numbered.numbers row hrow⟩, ?_, ?_⟩
  · intro g hg g' hg' huid hnumber
    have hfrozen : Frozen g s := hsane.numbered.frozen hsane.base.sound hg
    have hlater := run_invariant frozen_step ⟨hsane, hfrozen⟩ hmeets' hafter
    exact hlater.2.same g' hg' huid hnumber
  · intro e u hnew hstep
    exact step_progress hsane.base.sound (hsane.step s e u hnew hstep).base.sound hsane.numbered
      (hsane.stepped hnew hstep)

end

def rotation : List (Event Outside) :=
  [.receive (sampleRequest (.rotate 1 (sampleBinding "second"))) (sampleEnvironment "a" 20 "2"), .commit 0]

theorem run_histories_rotated :
    ∃ s t, run (step sampleConfig (postgres sampleConfig)) (idle emptyStore) created = some s ∧
      run (step sampleConfig (postgres sampleConfig)) s rotation = some t ∧
      t.store.generations.map (·.generation.number) = [1, 2] ∧
      (∀ row ∈ s.store.rows, 0 < row.currentGeneration ∧
        numbers s.store.generations row.uid = upTo row.currentGeneration) ∧
      (∀ g ∈ s.store.generations, ∀ g' ∈ t.store.generations, g'.connectionUID = g.connectionUID →
        g'.generation.number = g.generation.number → g' = g) ∧
      ∀ e u, fresh s e = true → step sampleConfig (postgres sampleConfig) s e = some u → Progress sampleConfig s e u := by
  have hrun : ((run (step sampleConfig (postgres sampleConfig)) (idle emptyStore) created).bind fun s =>
      (run (step sampleConfig (postgres sampleConfig)) s rotation).map fun t =>
        t.store.generations.map (·.generation.number)) = some [1, 2] := by decide +kernel
  obtain ⟨s, hs, hnext⟩ := Option.bind_eq_some_iff.mp hrun
  obtain ⟨t, ht, hnumbers⟩ := Option.map_eq_some_iff.mp hnext
  exact ⟨s, t, hs, ht, hnumbers, run_histories (by decide +kernel) hs ht⟩

end AstraSync.ConnectionHistories
