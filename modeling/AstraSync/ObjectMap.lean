import AstraSync.ObjectStore

/-!
The store as a map from keys to objects. A key leads to the object of the last change that took effect, whatever the calls
that run or were cut off have left beside it in temporary files.
-/

namespace AstraSync.ObjectMap

open ByteStrings FileTree Transitions ObjectStore

section

variable {trimSpace : Bytes → Bytes}

def tmp : Pc → Option Path
  | .chmod tmp _ | .write tmp _ _ | .close tmp _ | .rename tmp _ | .removeTemp tmp _ => some tmp
  | _ => none

def unwritten (data : Bytes) : Pc → Option (Path × ℕ × Bytes)
  | .chmod tmp file => some (tmp, file, data)
  | .write tmp file rest => some (tmp, file, rest)
  | .close tmp file | .rename tmp file => some (tmp, file, [])
  | _ => none

def effective : Pc → Option Bool
  | .removeTemp _ err => some err.isNone
  | .done (some err) => some err.isNone
  | .done none => none
  | _ => some false

theorem tmp_of_unwritten {data : Bytes} {pc : Pc} {p : Path} {file : ℕ} {rest : Bytes}
    (h : unwritten data pc = some (p, file, rest)) : tmp pc = some p := by
  unfold unwritten at h
  split at h <;> cases h <;> rfl

variable (s : Store trimSpace) (i : ℕ) (c : Call trimSpace)

inductive Moved : Input → Store trimSpace → Prop
  | turned (input : Input) (tree : Tree Bytes UInt8) (pc : Pc) (hfiles : tree.files = s.tree.files)
      (hcontents : tree.contents = s.tree.contents) (htmp : ∀ p, tmp pc = some p → tmp c.pc = some p)
      (hunwritten : ∀ data x, c.change = .put data → unwritten data pc = some x → unwritten data c.pc = some x)
      (hrunning : ∀ a, c.pc ≠ .done a) (hbefore : effective c.pc = some false) (hafter : effective pc = some false) :
      Moved input (advance s i c tree pc)
  | created (n file : ℕ) (tree : Tree Bytes UInt8) (data : Bytes) (hchange : c.change = .put data) (hpc : c.pc = .createTemp)
      (h : Created s.tree (c.path.dropLast ++ [tempName n]) file tree) :
      Moved (.name n) (advance s i c tree (.chmod (c.path.dropLast ++ [tempName n]) file))
  | wrote (n : ℕ) (p : Path) (file : ℕ) (rest data : Bytes) (hchange : c.change = .put data)
      (hpc : c.pc = .write p file rest) :
      Moved (.wrote n) (advance s i c (append s.tree file (rest.take n)) (.write p file (rest.drop n)))
  | renamed (p : Path) (file : ℕ) (tree : Tree Bytes UInt8) (data : Bytes) (hchange : c.change = .put data)
      (hpc : c.pc = .rename p file) (h : Renamed s.tree p c.path tree) :
      Moved .ok (committed s i c tree (.removeTemp p none))
  | cleaned (input : Input) (p : Path) (err : Option StoreError) (tree : Tree Bytes UInt8)
      (hpc : c.pc = .removeTemp p err) (h : tree = s.tree ∨ Removed s.tree p tree) :
      Moved input (advance s i c tree (.done (some err)))
  | deleted (tree : Tree Bytes UInt8) (hchange : c.change = .delete) (hpc : c.pc = .remove)
      (h : Removed s.tree c.path tree) : Moved .ok (committed s i c tree (.done (some none)))

variable {s i c} {s' : Store trimSpace} {input : Input}

theorem moved_same {before : Pc} (hpc : c.pc = before) (pc : Pc) (htmp : ∀ p, tmp pc = some p → tmp before = some p)
    (hunwritten : ∀ data x, c.change = .put data → unwritten data pc = some x → unwritten data before = some x)
    (hrunning : ∀ a, before ≠ .done a) (hbefore : effective before = some false) (hafter : effective pc = some false) :
    Moved s i c input (advance s i c s.tree pc) := by
  subst hpc
  exact .turned input s.tree pc rfl rfl htmp hunwritten hrunning hbefore hafter

theorem putObject_moved {data : Bytes} (hchange : c.change = .put data)
    (h : putObject s i c data input = some s') : Moved s i c input s' := by
  cases input with
  | ok =>
    dsimp only [putObject] at h
    split at h
    · next hpc =>
      cases h
      exact moved_same hpc _ nofun nofun nofun rfl rfl
    · next d rest hpc =>
      split at h
      · next tree htree =>
        cases h
        obtain ⟨hfiles, hcontents⟩ := mkdir_keeps htree
        exact .turned _ tree _ hfiles hcontents nofun nofun (by rw [hpc]; nofun) (by rw [hpc]; rfl) rfl
      · cases h
        exact moved_same hpc _ nofun nofun nofun rfl rfl
    · next hpc =>
      cases h
      refine moved_same hpc _ (fun _ h => h) (fun d x hd h => ?_) nofun rfl rfl
      rw [hchange] at hd
      cases hd
      exact h
    · next hpc =>
      cases h
      exact moved_same hpc _ (fun _ h => h) (fun _ _ _ h => h) nofun rfl rfl
    · next hpc =>
      cases h
      exact moved_same hpc _ (fun _ h => h) (fun _ _ _ h => h) nofun rfl rfl
    · next hpc =>
      split at h
      · next tree htree =>
        cases h
        exact .renamed _ _ tree data hchange hpc (rename_renamed htree)
      · cases h
        exact moved_same hpc _ (fun _ h => h) nofun nofun rfl rfl
    · next p err hpc =>
      cases h
      refine .cleaned _ p err _ hpc ?_
      cases hremove : remove s.tree p with
      | none => exact .inl rfl
      | some => exact .inr (remove_removed hremove)
    · cases h
  | failed =>
    dsimp only [putObject] at h
    split at h <;> cases h
    case h_1 hpc | h_2 hpc => exact moved_same hpc _ nofun nofun nofun rfl rfl
    case h_3 hpc | h_4 hpc | h_5 hpc | h_6 hpc =>
      exact moved_same hpc _ (fun _ h => h) nofun nofun rfl rfl
    case h_7 p err hpc => exact .cleaned _ p err _ hpc (.inl rfl)
  | name n =>
    dsimp only [putObject] at h
    split at h
    · next hpc =>
      obtain ⟨⟨file, tree⟩, hcreate, rfl⟩ := Option.map_eq_some_iff.mp h
      exact .created n file tree data hchange hpc (create_created hcreate)
    · cases h
  | wrote n =>
    dsimp only [putObject] at h
    split at h
    · next p file rest hpc =>
      cases h
      exact .wrote n p file rest data hchange hpc
    · cases h

theorem deleteObject_moved (hchange : c.change = .delete) (h : deleteObject s i c input = some s') :
    Moved s i c input s' := by
  unfold deleteObject at h
  split at h
  · split at h
    · next hpc =>
      split at h
      · next tree htree =>
        cases h
        exact .deleted tree hchange hpc (remove_removed htree)
      · cases h
        exact moved_same hpc _ nofun nofun nofun rfl rfl
    · cases h
  · split at h
    · next hpc =>
      cases h
      exact moved_same hpc _ nofun nofun nofun rfl rfl
    · cases h
  · cases h

end

section

variable {trimSpace : Bytes → Bytes} {s s' : Store trimSpace} {i : ℕ} {c : Call trimSpace} {t t' : Tree Bytes UInt8} {p : Path}

def Placed (t : Tree Bytes UInt8) (data : Bytes) (pc : Pc) : Prop :=
  ∀ p file rest, unwritten data pc = some (p, file, rest) →
    fileAt t p = some file ∧ ∃ written, t.contents[file]? = some written ∧ written ++ rest = data

theorem Placed.keeps {data : Bytes} {pc : Pc} (h : Placed t data pc) (hkeep : ∀ p, tmp pc = some p → Keeps t t' p) :
    Placed t' data pc := by
  intro p file rest hp
  obtain ⟨hfile, written, hwritten, hdata⟩ := h p file rest hp
  have hk := hkeep p (tmp_of_unwritten hp)
  exact ⟨hk.1.trans hfile, written, (hk.2 file hfile).trans hwritten, hdata⟩

structure Tidy (s : Store trimSpace) : Prop where
  path : ∀ c ∈ s.calls, (∃ a, c.pc = .done a) ∨ c.path = c.key.path
  keys : ∀ c ∈ s.calls, temporary c.key.path = false
  tmps : ∀ c ∈ s.calls, ∀ p, tmp c.pc = some p → temporary p = true
  placed : ∀ c ∈ s.calls, ∀ data, c.change = .put data → Placed s.tree data c.pc
  apart : ∀ (i j : ℕ) c d p, s.calls[i]? = some c → s.calls[j]? = some d → tmp c.pc = some p → tmp d.pc = some p → i = j

theorem calls_set {pc : Pc} {j : ℕ} {d : Call trimSpace} (hc : s.calls[i]? = some c)
    (hcalls : s'.calls = s.calls.set i { c with pc }) :
    s'.calls[j]? = some d ↔ (j = i ∧ { c with pc } = d) ∨ (j ≠ i ∧ s.calls[j]? = some d) := by
  rw [hcalls]
  exact Slots.getElem?_set hc

theorem Tidy.set (h : Tidy s) (hc : s.calls[i]? = some c) (pc : Pc) (hcalls : s'.calls = s.calls.set i { c with pc })
    (hpath : (∃ a, pc = .done a) ∨ c.path = c.key.path)
    (htmp : ∀ p, tmp pc = some p →
      temporary p = true ∧ ∀ (j : ℕ) d, s.calls[j]? = some d → j ≠ i → tmp d.pc ≠ some p)
    (hplaced : ∀ data, c.change = .put data → Placed s'.tree data pc)
    (hkeep : ∀ (j : ℕ) d p, s.calls[j]? = some d → j ≠ i → tmp d.pc = some p → Keeps s.tree s'.tree p) : Tidy s' := by
  have split {j : ℕ} {d : Call trimSpace} := calls_set (j := j) (d := d) hc hcalls
  constructor
  · grind [Tidy, List.mem_iff_getElem, List.mem_of_getElem]
  · grind [Tidy, List.mem_iff_getElem, List.mem_of_getElem]
  · grind [Tidy, List.mem_iff_getElem, List.mem_of_getElem]
  · intro d hd data hdata
    obtain ⟨j, hj⟩ := List.mem_iff_getElem?.mp hd
    rcases split.mp hj with ⟨-, rfl⟩ | ⟨hne, hj⟩
    · exact hplaced data hdata
    · exact (h.placed d (List.mem_of_getElem? hj) data hdata).keeps fun p hp => hkeep j d p hj hne hp
  · grind [Tidy]

def plain (s : Store trimSpace) : Event trimSpace → Bool
  | .call key _ _ => !temporary key.path
  | .advance i (.name n) =>
    s.calls[i]?.all fun c => s.calls.all fun d => decide (tmp d.pc ≠ some (c.path.dropLast ++ [tempName n]))
  | _ => true

theorem temporary_tempName (dir : Path) (n : ℕ) : temporary (dir ++ [tempName n]) = true := by
  simp [temporary, tempName]

variable {input : Input}

theorem Moved.running (o : Moved s i c input s') (a : Option (Option StoreError)) : c.pc ≠ .done a := by
  cases o with
  | turned input tree pc hfiles hcontents htmp hunwritten hrunning => exact hrunning a
  | created n file tree data hchange hpc | wrote n p file rest data hchange hpc | renamed p file tree data hchange hpc
  | cleaned input p err tree hpc | deleted tree hchange hpc =>
    rw [hpc]
    nofun

theorem Moved.keeps (o : Moved s i c input s')
    (hplaced : ∀ data, c.change = .put data → Placed s.tree data c.pc) (hold : tmp c.pc ≠ some p)
    (hname : ∀ n, input = .name n → p ≠ c.path.dropLast ++ [tempName n]) (hpath : s'.log = s.log ∨ p ≠ c.path) :
    Keeps s.tree s'.tree p := by
  have ne_tmp {q : Path} (hq : tmp c.pc = some q) : p ≠ q := fun heq => hold (heq ▸ hq)
  cases o with
  | turned input tree pc hfiles hcontents => exact Keeps.of_eq hfiles hcontents p
  | created n file tree data hchange hpc h => exact h.keeps (hname n rfl)
  | wrote n q file rest data hchange hpc =>
    have hplaced := hplaced data hchange
    rw [hpc] at hplaced
    exact append_keeps _ (hplaced q file rest rfl).1 (ne_tmp (by rw [hpc]; rfl))
  | renamed q file tree data hchange hpc h =>
    exact h.keeps (ne_tmp (by rw [hpc]; rfl)) (hpath.resolve_left (by simp [committed]))
  | cleaned input q err tree hpc h =>
    rcases h with rfl | h
    · exact Keeps.of_eq rfl rfl p
    · exact h.keeps (ne_tmp (by rw [hpc]; rfl))
  | deleted tree hchange hpc h => exact h.keeps (hpath.resolve_left (by simp [committed]))

theorem Tidy.moved (h : Tidy s) (hc : s.calls[i]? = some c) (hplain : plain s (.advance i input) = true)
    (o : Moved s i c input s') : Tidy s' := by
  have hmem := List.mem_of_getElem? hc
  have hpath : c.path = c.key.path := (h.path c hmem).resolve_left fun ⟨a, ha⟩ => o.running a ha
  have hfree (n : ℕ) (hn : input = .name n) (d : Call trimSpace) (hd : d ∈ s.calls) :
      tmp d.pc ≠ some (c.path.dropLast ++ [tempName n]) := by
    subst hn
    simp only [plain, hc, Option.all_some, List.all_eq_true, decide_eq_true_eq] at hplain
    exact hplain d hd
  have hkeep (j : ℕ) (d : Call trimSpace) (p : Path) (hd : s.calls[j]? = some d) (hne : j ≠ i) (hp : tmp d.pc = some p) :
      Keeps s.tree s'.tree p := by
    have hdmem := List.mem_of_getElem? hd
    refine o.keeps (h.placed c hmem) (fun heq => hne (h.apart j i d c p hd hc hp heq)) (fun n hn heq => ?_) (.inr ?_)
    · exact hfree n hn d hdmem (heq ▸ hp)
    · grind [Tidy]
  have hown {q : Path} (hq : tmp c.pc = some q) :
      temporary q = true ∧ ∀ (j : ℕ) d, s.calls[j]? = some d → j ≠ i → tmp d.pc ≠ some q :=
    ⟨h.tmps c hmem q hq, fun j d hd hne heq => hne (h.apart j i d c q hd hc heq hq)⟩
  cases o with
  | turned input tree pc hfiles hcontents htmp hunwritten =>
    refine h.set hc pc rfl (.inr hpath) (fun p hp => hown (htmp p hp)) (fun data hdata => ?_) hkeep
    have hplaced : Placed s.tree data pc :=
      fun p file rest hp => h.placed c hmem data hdata p file rest (hunwritten data _ hdata hp)
    exact hplaced.keeps fun p _ => Keeps.of_eq hfiles hcontents p
  | created n file tree data hchange hpc hcreated =>
    refine h.set hc _ rfl (.inr hpath) (fun p hp => ?_) (fun d hd p f rest hp => ?_) hkeep
    · cases hp
      exact ⟨temporary_tempName _ _, fun j d hd _ => hfree n rfl d (List.mem_of_getElem? hd)⟩
    · cases hp
      refine ⟨(hcreated.fileAt _ _).mpr (.inl ⟨rfl, rfl⟩), [], ?_, rfl⟩
      rw [advance, hcreated.contents, hcreated.fresh]
      simp
  | wrote n p file rest data hchange hpc =>
    refine h.set hc _ rfl (.inr hpath) (fun q hq => hown (by rw [hpc]; exact hq)) (fun d hd q f r hq => ?_) hkeep
    cases hq
    have hplaced := h.placed c hmem d hd
    rw [hpc] at hplaced
    obtain ⟨hfile, written, hwritten, hdata⟩ := hplaced p file rest rfl
    refine ⟨hfile, written ++ rest.take n, ?_, by rw [List.append_assoc, List.take_append_drop, hdata]⟩
    exact (List.getElem?_modify _ _ _ _).trans (by simp [hwritten])
  | renamed p file tree data hchange hpc =>
    exact h.set hc _ rfl (.inr hpath) (fun q hq => hown (by rw [hpc]; exact hq)) nofun hkeep
  | cleaned | deleted => exact h.set hc _ rfl (.inl ⟨_, rfl⟩) nofun nofun hkeep

theorem begin_path (root : Root) (key : Key trimSpace) (change : Change) (cancelled : Bool) :
    (∃ a, (begin root key change cancelled).pc = .done a) ∨ (begin root key change cancelled).path = key.path := by
  unfold begin
  split
  · exact .inl ⟨_, rfl⟩
  · rw [key.path_eq]
    cases change with
    | put | delete => exact .inr rfl

theorem begin_key (root : Root) (key : Key trimSpace) (change : Change) (cancelled : Bool) :
    (begin root key change cancelled).key = key ∧ (begin root key change cancelled).change = change := by
  unfold begin
  split
  · exact ⟨rfl, rfl⟩
  · grind

theorem begin_pc (root : Root) (key : Key trimSpace) (change : Change) (cancelled : Bool) :
    tmp (begin root key change cancelled).pc = none ∧ effective (begin root key change cancelled).pc = some false := by
  unfold begin
  split
  · exact ⟨rfl, rfl⟩
  · rw [key.path_eq]
    cases change with
    | put | delete => exact ⟨rfl, rfl⟩

theorem placed_of_tmp {data : Bytes} {pc : Pc} (h : tmp pc = none) : Placed t data pc := by
  intro p file rest hp
  rw [tmp_of_unwritten hp] at h
  cases h

theorem Tidy.call (h : Tidy s) (root : Root) {key : Key trimSpace} (hkey : temporary key.path = false) (change : Change)
    (cancelled : Bool) : Tidy { s with calls := s.calls ++ [begin root key change cancelled] } := by
  obtain ⟨htmp, -⟩ := begin_pc root key change cancelled
  have old {d : Call trimSpace} (hd : d ∈ s.calls ++ [begin root key change cancelled]) :
      d ∈ s.calls ∨ d = begin root key change cancelled := by
    simpa using hd
  constructor
  · intro d hd
    rcases old hd with hd | rfl
    · exact h.path d hd
    · rw [(begin_key root key change cancelled).1]
      exact begin_path root key change cancelled
  · intro d hd
    rcases old hd with hd | rfl
    · exact h.keys d hd
    · rw [(begin_key root key change cancelled).1, hkey]
  · intro d hd p hp
    rcases old hd with hd | rfl
    · exact h.tmps d hd p hp
    · rw [htmp] at hp
      cases hp
  · intro d hd data hdata
    rcases old hd with hd | rfl
    · exact h.placed d hd data hdata
    · exact placed_of_tmp htmp
  · intro j k d e p hd he hdp hep
    rcases Slots.getElem?_snoc.mp hd with hd | ⟨-, rfl⟩
    · rcases Slots.getElem?_snoc.mp he with he | ⟨-, rfl⟩
      · exact h.apart j k d e p hd he hdp hep
      · rw [htmp] at hep
        cases hep
    · rw [htmp] at hdp
      cases hdp

theorem cutOff_key (c : Call trimSpace) : (cutOff c).key = c.key ∧ (cutOff c).change = c.change := by
  unfold cutOff
  split <;> exact ⟨rfl, rfl⟩

theorem cutOff_pc (c : Call trimSpace) : (∃ a, c.pc = .done a ∧ cutOff c = c) ∨ (cutOff c).pc = .done none := by
  unfold cutOff
  split
  · next a ha => exact .inl ⟨a, ha, rfl⟩
  · exact .inr rfl

theorem cutOff_done (c : Call trimSpace) : ∃ a, (cutOff c).pc = .done a := by
  rcases cutOff_pc c with ⟨a, ha, heq⟩ | hpc
  · exact ⟨a, (congrArg Call.pc heq).trans ha⟩
  · exact ⟨none, hpc⟩

theorem Tidy.crash (h : Tidy s) : Tidy { s with calls := s.calls.map cutOff } := by
  have done (d : Call trimSpace) (hd : d ∈ s.calls.map cutOff) : ∃ a, d.pc = .done a := by
    obtain ⟨c, -, rfl⟩ := List.mem_map.mp hd
    exact cutOff_done c
  have none (d : Call trimSpace) (hd : d ∈ s.calls.map cutOff) : tmp d.pc = none := by
    obtain ⟨a, ha⟩ := done d hd
    rw [ha]
    rfl
  refine ⟨fun d hd => .inl (done d hd), fun d hd => ?_, fun d hd p hp => ?_, fun d hd _ _ => placed_of_tmp (none d hd),
    fun j k d e p hd he hdp hep => ?_⟩
  · grind [Tidy, cutOff_key]
  · rw [none d hd] at hp
    cases hp
  · rw [none d (List.mem_of_getElem? hd)] at hdp
    cases hdp

variable {root : Root} {e : Event trimSpace}

theorem step_advance (h : step root s (.advance i input) = some s') :
    ∃ c, s.calls[i]? = some c ∧ Moved s i c input s' := by
  obtain ⟨c, hc, hstep⟩ := Option.bind_eq_some_iff.mp h
  refine ⟨c, hc, ?_⟩
  split at hstep
  · next hchange => exact putObject_moved hchange hstep
  · next hchange => exact deleteObject_moved hchange hstep

theorem step_tidy (h : Tidy s) (hplain : plain s e = true) (hstep : step root s e = some s') : Tidy s' := by
  cases e with
  | call key change cancelled =>
    cases hstep
    exact h.call root (by simpa [plain] using hplain) change cancelled
  | advance =>
    obtain ⟨c, hc, o⟩ := step_advance hstep
    exact h.moved hc hplain o
  | crash =>
    cases hstep
    exact h.crash

theorem latest_append (log : List Effect) (e : Effect) (key : Bytes) :
    latest (log ++ [e]) key = if e.key = key then e.change.result else latest log key := by
  simp [latest]

structure Mapped (s : Store trimSpace) : Prop where
  objects : ∀ k : Key trimSpace, temporary k.path = false → read s.tree k.path = latest s.log k.text
  names : ∀ p file, fileAt s.tree p = some file → temporary p = true ∨ ∃ k : Key trimSpace, p = k.path

theorem Mapped.kept (h : Mapped s) (hlog : s'.log = s.log)
    (hkeep : ∀ p, temporary p = false → Keeps s.tree s'.tree p) : Mapped s' := by
  constructor
  · intro k hk
    rw [(hkeep _ hk).read, hlog]
    exact h.objects k hk
  · intro p file hfile
    by_cases hp : temporary p = true
    · exact .inl hp
    · rw [(hkeep p (Bool.eq_false_of_not_eq_true hp)).1] at hfile
      exact h.names p file hfile

theorem Mapped.changed (h : Mapped s) (hpath : c.path = c.key.path) (hlog : s'.log = s.log ++ [⟨i, c.key.text, c.change⟩])
    (hkeep : ∀ p, temporary p = false → p ≠ c.path → Keeps s.tree s'.tree p)
    (hread : read s'.tree c.path = c.change.result) : Mapped s' := by
  constructor
  · intro k hk
    rw [hlog, latest_append]
    by_cases hkey : c.key.text = k.text
    · rw [if_pos hkey, ← hread, hpath, Key.path, Key.path, hkey]
    · have hne : k.path ≠ c.path := fun heq => hkey (Key.path_inj (hpath ▸ heq)).symm
      rw [if_neg hkey, (hkeep _ hk hne).read]
      exact h.objects k hk
  · intro p file hfile
    by_cases hp : p = c.path
    · exact .inr ⟨c.key, hp.trans hpath⟩
    · by_cases htemp : temporary p = true
      · exact .inl htemp
      · rw [(hkeep p (Bool.eq_false_of_not_eq_true htemp) hp).1] at hfile
        exact h.names p file hfile

theorem Mapped.moved {input : Input} (h : Mapped s) (ht : Tidy s) (hc : s.calls[i]? = some c)
    (o : Moved s i c input s') : Mapped s' := by
  have hmem := List.mem_of_getElem? hc
  have hpath : c.path = c.key.path := (ht.path c hmem).resolve_left fun ⟨a, ha⟩ => o.running a ha
  have hkeep (p : Path) (hp : temporary p = false) (hlog : s'.log = s.log ∨ p ≠ c.path) : Keeps s.tree s'.tree p := by
    refine o.keeps (ht.placed c hmem) (fun htmp => ?_) (fun n _ heq => ?_) hlog
    · exact absurd (hp.symm.trans (ht.tmps c hmem p htmp)) nofun
    · rw [heq, temporary_tempName] at hp
      cases hp
  cases o with
  | turned | created | wrote | cleaned => exact h.kept rfl fun p hp => hkeep p hp (.inl rfl)
  | renamed p file tree data hchange hpc hrenamed =>
    refine h.changed hpath rfl (fun p hp hne => hkeep p hp (.inr hne)) ?_
    have hplaced := ht.placed c hmem data hchange
    rw [hpc] at hplaced
    obtain ⟨hfile, written, hwritten, hdata⟩ := hplaced p file [] rfl
    obtain ⟨j, hj, hiff⟩ := hrenamed.fileAt
    rw [hfile] at hj
    cases hj
    have hnew : fileAt tree c.path = some file := (hiff c.path file).mpr (.inl ⟨rfl, rfl⟩)
    rw [committed, read_of_fileAt hnew, hrenamed.contents, hwritten, hchange, Change.result, ← hdata, List.append_nil]
  | deleted tree hchange hpc hremoved =>
    refine h.changed hpath rfl (fun p hp hne => hkeep p hp (.inr hne)) ?_
    have hnone : fileAt tree c.path = none := by
      cases hfile : fileAt tree c.path with
      | none => rfl
      | some file => exact absurd rfl ((hremoved.fileAt c.path file).mp hfile).1
    rw [committed, FileTree.read, hnone, hchange]
    rfl

theorem step_mapped (h : Mapped s) (ht : Tidy s) (hstep : step root s e = some s') : Mapped s' := by
  cases e with
  | call | crash =>
    cases hstep
    exact ⟨h.objects, h.names⟩
  | advance =>
    obtain ⟨c, hc, o⟩ := step_advance hstep
    exact h.moved ht hc o

structure Logged (s : Store trimSpace) : Prop where
  changes : ∀ e ∈ s.log, ∃ c, s.calls[e.call]? = some c ∧ e.key = c.key.text ∧ e.change = c.change
  once : (s.log.map Effect.call).Nodup
  effective : ∀ (i : ℕ) c b, s.calls[i]? = some c → effective c.pc = some b → (i ∈ s.log.map Effect.call ↔ b = true)

theorem Logged.kept (h : Logged s) (hc : s.calls[i]? = some c) (pc : Pc) (hcalls : s'.calls = s.calls.set i { c with pc })
    (hlog : s'.log = s.log) (hpc : ObjectMap.effective pc = ObjectMap.effective c.pc) : Logged s' := by
  have split {j : ℕ} {d : Call trimSpace} := calls_set (j := j) (d := d) hc hcalls
  constructor
  · grind [Logged]
  · rw [hlog]
    exact h.once
  · grind [Logged]

theorem Logged.changed (h : Logged s) (hc : s.calls[i]? = some c) (pc : Pc) (hcalls : s'.calls = s.calls.set i { c with pc })
    (hlog : s'.log = s.log ++ [⟨i, c.key.text, c.change⟩]) (hbefore : ObjectMap.effective c.pc = some false)
    (hafter : ObjectMap.effective pc = some true) : Logged s' := by
  have hnew : i ∉ s.log.map Effect.call := by
    rw [h.effective i c false hc hbefore]
    nofun
  have split {j : ℕ} {d : Call trimSpace} := calls_set (j := j) (d := d) hc hcalls
  constructor
  · grind [Logged, List.mem_map_of_mem, List.mem_singleton]
  · grind [Logged, List.nodup_append, List.nodup_singleton, List.mem_singleton]
  · grind [Logged]

theorem Logged.moved {input : Input} (h : Logged s) (hc : s.calls[i]? = some c) (o : Moved s i c input s') : Logged s' := by
  cases o with
  | turned input tree pc hfiles hcontents htmp hunwritten hrunning hbefore hafter =>
    exact h.kept hc pc rfl rfl (hafter.trans hbefore.symm)
  | created n file tree data hchange hpc | wrote n p file rest data hchange hpc | cleaned input p err tree hpc =>
    exact h.kept hc _ rfl rfl (by rw [hpc]; rfl)
  | renamed p file tree data hchange hpc | deleted tree hchange hpc =>
    exact h.changed hc _ rfl rfl (by rw [hpc]; rfl) rfl

theorem step_logged (h : Logged s) (hstep : step root s e = some s') : Logged s' := by
  cases e with
  | call key change cancelled =>
    cases hstep
    refine ⟨fun e he => ?_, h.once, fun j d b hd hb => ?_⟩
    · obtain ⟨d, hd, hkey⟩ := h.changes e he
      exact ⟨d, Slots.getElem?_snoc.mpr (.inl hd), hkey⟩
    · rcases Slots.getElem?_snoc.mp hd with hd | ⟨rfl, rfl⟩
      · exact h.effective j d b hd hb
      · rw [(begin_pc root key change cancelled).2] at hb
        cases hb
        refine ⟨fun hmem => ?_, nofun⟩
        obtain ⟨e, he, heq⟩ := List.mem_map.mp hmem
        obtain ⟨d, hd, -⟩ := h.changes e he
        exact absurd (List.getElem?_eq_some_iff.mp hd).1 (by omega)
  | advance =>
    obtain ⟨c, hc, o⟩ := step_advance hstep
    exact h.moved hc o
  | crash =>
    cases hstep
    refine ⟨fun e he => ?_, h.once, fun j d b hd hb => ?_⟩
    · obtain ⟨c, hc, hkey⟩ := h.changes e he
      refine ⟨cutOff c, by rw [List.getElem?_map, hc, Option.map_some], ?_⟩
      rw [(cutOff_key c).1, (cutOff_key c).2]
      exact hkey
    · rw [List.getElem?_map] at hd
      obtain ⟨c, hc, rfl⟩ := Option.map_eq_some_iff.mp hd
      rcases cutOff_pc c with ⟨a, -, heq⟩ | hpc
      · rw [heq] at hb
        exact h.effective j c b hc hb
      · rw [hpc] at hb
        cases hb

end

variable {trimSpace : Bytes → Bytes} {s : Store trimSpace} {root : Root}

theorem Key.text_ends (k : Key trimSpace) : k.text.head? ≠ some slash ∧ k.text.getLast? ≠ some slash ∧ k.text ≠ [] := by
  have hempty : [] ∉ k.path := fun h => (k.part_ne h).1 rfl
  refine ⟨fun hhead => hempty ?_, fun hlast => hempty ?_, fun hnil => hempty ?_⟩
  · have htext : k.text = [] ++ slash :: k.text.tail := (List.cons_head?_tail hhead).symm
    rw [Key.path, htext, split_append]
    simp [split]
  · have htext : k.text = k.text.dropLast ++ slash :: [] := (List.dropLast_append_getLast? _ hlast).symm
    rw [Key.path, htext, split_append]
    simp [split]
  · rw [Key.path, hnil]
    simp [split]

theorem dropWhile_slash {text : Bytes} (h : text.head? ≠ some slash) : text.dropWhile (· = slash) = text := by
  cases text with
  | nil => rfl
  | cons =>
    rw [List.dropWhile_cons_of_neg]
    simpa using h

theorem trimSlashes_text (k : Key trimSpace) : trimSlashes (k.text ++ [slash]) = k.text := by
  obtain ⟨hhead, hlast, hne⟩ := Key.text_ends k
  have hfront : (k.text ++ [slash]).head? ≠ some slash := by
    rwa [List.head?_append_of_ne_nil _ hne]
  have hback : k.text.reverse.head? ≠ some slash := by
    rwa [List.head?_reverse]
  rw [trimSlashes, dropWhile_slash hfront, List.reverse_append, List.reverse_singleton, List.singleton_append,
    List.dropWhile_cons_of_pos (by simp), dropWhile_slash hback, List.reverse_reverse]

theorem backslash_not_mem (k : Key trimSpace) : backslash ∉ k.text := by
  have hkey := k.canonical
  simp only [ObjectStore.canonical, Bool.and_eq_true, decide_eq_true_eq] at hkey
  exact hkey.1.1.2

theorem probe_volume (k : Key trimSpace) : hasWindowsVolumePrefix (k.text ++ lit "/.probe") = false := by
  have hkey := k.canonical
  simp only [ObjectStore.canonical, Bool.and_eq_true, Bool.not_eq_true'] at hkey
  have hvolume := hkey.2
  obtain ⟨-, -, hne⟩ := Key.text_ends k
  cases htext : k.text with
  | nil => exact absurd htext hne
  | cons a rest =>
    cases rest with
    | nil => rfl
    | cons b rest =>
      rw [htext] at hvolume
      by_cases hb : b = 58
      · subst hb
        exact hvolume
      · simp [hasWindowsVolumePrefix, hb]

theorem probe_path (htrim : ∀ key, key ≠ [] → trimSpace key = key → trimSpace (key ++ lit "/.probe") = key ++ lit "/.probe")
    (k : Key trimSpace) : ∃ p, path trimSpace root (k.text ++ lit "/.probe") = .ok p := by
  have hkey := k.canonical
  simp only [ObjectStore.canonical, Bool.and_eq_true, decide_eq_true_eq] at hkey
  have hsplit : split slash (k.text ++ lit "/.probe") = k.path ++ [lit ".probe"] := by
    change split slash (k.text ++ slash :: lit ".probe") = _
    have hlast : split slash (lit ".probe") = [lit ".probe"] := split_single (by decide)
    rw [split_append, hlast]
    rfl
  refine ⟨_, path_of_plain root (htrim _ (Key.text_ends k).2.2 hkey.1.2) ?_ (probe_volume k) fun part hpart => ?_⟩
  · rw [List.mem_append]
    rintro (hmem | hmem)
    · exact backslash_not_mem k hmem
    · revert hmem
      decide
  · rw [hsplit] at hpart
    rcases List.mem_append.mp hpart with hpart | hpart
    · exact k.part_ne hpart
    · cases List.mem_singleton.mp hpart
      decide

theorem getObject_eq (k : Key trimSpace) (data : Bytes) :
    getObject s root k.text = .ok data ↔ read s.tree k.path = some data := by
  rw [getObject, k.path_eq]
  cases hread : FileTree.read s.tree k.path <;> simp [hread]

theorem listObjects_eq
    (htrim : ∀ key, key ≠ [] → trimSpace key = key → trimSpace (key ++ lit "/.probe") = key ++ lit "/.probe")
    (k : Key trimSpace) : listObjects s root (k.text ++ [slash]) = .ok (walk s k.text) := by
  obtain ⟨p, hp⟩ : ∃ p, path trimSpace root (k.text ++ lit "/.probe") = .ok p := probe_path htrim k
  have hreplace : replaceBackslashes (k.text ++ [slash]) = k.text ++ [slash] := by
    refine replaceBackslashes_of_not_mem fun hmem => ?_
    rcases List.mem_append.mp hmem with hmem | hmem
    · exact backslash_not_mem k hmem
    · cases List.mem_singleton.mp hmem
  dsimp only [listObjects]
  rw [hreplace, trimSlashes_text, if_neg (Key.text_ends k).2.2, hp]

def clear (s : Store trimSpace) (below : Bytes) : Prop :=
  ∀ f ∈ s.tree.files, below ++ [slash] <+: join slash f.1 ∨ join slash f.1 = below → temporary f.1 = false

theorem mem_of_latest {log : List Effect} {key : Bytes} (h : (latest log key).isSome = true) : ∃ e ∈ log, e.key = key := by
  induction log using List.reverseRecOn with
  | nil => cases h
  | append_singleton log e ih =>
    rw [latest_append] at h
    by_cases he : e.key = key
    · exact ⟨e, by simp, he⟩
    · grind

theorem join_path (k : Key trimSpace) : join slash k.path = k.text := join_split slash k.text

theorem mem_walk (hm : Mapped s) (ht : Tidy s) (hl : Logged s) (k : Key trimSpace) (hclear : clear s k.text)
    (hbare : latest s.log k.text = none) (key : Bytes) :
    key ∈ walk s k.text ↔ (latest s.log key).isSome = true ∧ k.text ++ [slash] <+: key := by
  rw [walk, List.mem_insertionSort, List.mem_filter, List.mem_map]
  constructor
  · rintro ⟨⟨f, hf, rfl⟩, hbelow⟩
    have hfile : fileAt s.tree f.1 = some f.2 := fileAt_eq_some.mpr hf
    have hne := (Key.text_ends k).2.2
    simp only [hne, decide_false, Bool.false_or, Bool.or_eq_true, decide_eq_true_eq] at hbelow
    have hplain := hclear f hf hbelow
    obtain ⟨l, hl⟩ := (hm.names f.1 f.2 hfile).resolve_left (by rw [hplain]; nofun)
    rw [hl] at hfile hplain hbelow ⊢
    rw [join_path] at hbelow ⊢
    have hsome : (latest s.log l.text).isSome = true := by
      rw [← hm.objects l hplain, read_isSome, hfile]
      rfl
    refine ⟨hsome, ?_⟩
    refine hbelow.resolve_right fun heq => ?_
    rw [heq, hbare] at hsome
    cases hsome
  ·
    grind [Tidy, Mapped, Logged, mem_of_latest, List.mem_of_getElem, read_isSome, Option.isSome_iff_exists, fileAt_eq_some, join_path]

theorem walk_sorted (hm : Mapped s) {below : Bytes} (hne : below ≠ []) (hclear : clear s below) :
    (walk s below).Pairwise (· < ·) := by
  have hnodup : (walk s below).Nodup := by
    rw [walk, (List.perm_insertionSort _ _).nodup_iff, List.filter_map]
    refine ((List.Nodup.of_map _ s.tree.names_nodup).filter _).map_on fun f hf g hg heq => ?_
    simp only [List.mem_filter, Function.comp_apply, hne, decide_false, Bool.false_or, Bool.or_eq_true,
      decide_eq_true_eq] at hf hg
    obtain ⟨⟨hf, hfbelow⟩, hg, hgbelow⟩ := hf, hg
    have known (f : Path × ℕ) (hf : f ∈ s.tree.files) (hplain : temporary f.1 = false) : ∃ k : Key trimSpace, f.1 = k.path :=
      (hm.names f.1 f.2 (fileAt_eq_some.mpr hf)).resolve_left (by rw [hplain]; nofun)
    obtain ⟨k, hk⟩ := known f hf (hclear f hf hfbelow)
    obtain ⟨l, hl⟩ := known g hg (hclear g hg hgbelow)
    rw [hk, hl, join_path, join_path] at heq
    refine List.inj_on_of_nodup_map s.tree.names_nodup hf hg ?_
    rw [hk, hl, Key.path, Key.path, heq]
  have hsorted : (walk s below).Pairwise (· ≤ ·) := List.pairwise_insertionSort _ _
  refine (hsorted.and hnodup).imp fun {a b} h => ?_
  by_contra hlt
  exact h.2 (List.le_antisymm h.1 hlt)

structure IsMap (root : Root) (s : Store trimSpace) : Prop where
  get : ∀ k : Key trimSpace, temporary k.path = false →
    ∀ data, getObject s root k.text = .ok data ↔ latest s.log k.text = some data
  list : ∀ k : Key trimSpace, clear s k.text → latest s.log k.text = none → ∃ keys,
    listObjects s root (k.text ++ [slash]) = .ok keys ∧ keys.Pairwise (· < ·) ∧
      ∀ key, key ∈ keys ↔ (latest s.log key).isSome = true ∧ k.text ++ [slash] <+: key
  answers : ∀ (i : ℕ) c err, s.calls[i]? = some c → c.pc = .done (some err) → (i ∈ s.log.map Effect.call ↔ err = none)
  once : (s.log.map Effect.call).Nodup
  changes : ∀ e ∈ s.log, ∃ c, s.calls[e.call]? = some c ∧ e.key = c.key.text ∧ e.change = c.change

structure Inv (s : Store trimSpace) : Prop where
  tidy : Tidy s
  mapped : Mapped s
  logged : Logged s

theorem step_inv {s' : Store trimSpace} {e : Event trimSpace} (h : Inv s) (hplain : plain s e = true)
    (hstep : step root s e = some s') : Inv s' :=
  ⟨step_tidy h.tidy hplain hstep, step_mapped h.mapped h.tidy hstep, step_logged h.logged hstep⟩

theorem inv_initial : Inv (initial : Store trimSpace) :=
  ⟨⟨nofun, nofun, nofun, nofun, by simp [initial]⟩, ⟨fun _ _ => rfl, nofun⟩, ⟨nofun, List.nodup_nil, by simp [initial]⟩⟩

/-- Behind every history of changes that name no key as a temporary file, the store is the map of the changes that took
effect; a list needs a prefix that is no object itself and has no temporary file below it. -/
theorem run_is_map (trimSpace : Bytes → Bytes)
    (htrim : ∀ key, key ≠ [] → trimSpace key = key → trimSpace (key ++ lit "/.probe") = key ++ lit "/.probe")
    (root : Root) (events : List (Event trimSpace)) (s : Store trimSpace)
    (hplain : meets (step root) plain initial events = true) (hrun : run (step root) initial events = some s) :
    IsMap root s := by
  have h : Inv s := run_invariant (fun _ _ _ h ho hs => step_inv h ho hs) inv_initial hplain hrun
  refine ⟨fun k hk data => ?_, fun k hclear hbare => ?_, fun i c err hc hdone => ?_, h.logged.once, h.logged.changes⟩
  · rw [getObject_eq, h.mapped.objects k hk]
  · exact ⟨_, listObjects_eq htrim k, walk_sorted h.mapped (Key.text_ends k).2.2 hclear,
      mem_walk h.mapped h.tidy h.logged k hclear hbare⟩
  · have heffective : effective c.pc = some err.isNone := by
      rw [hdone]
      rfl
    rw [h.logged.effective i c _ hc heffective, Option.isNone_iff_eq_none]

/-- Whichever calls run side by side and wherever they are cut off, no two of them write one temporary file, and the
file of each holds what that call has written so far. -/
theorem run_tidy {root : Root} {events : List (Event trimSpace)} {s : Store trimSpace}
    (hplain : meets (step root) plain initial events = true) (hrun : run (step root) initial events = some s) : Tidy s :=
  (run_invariant (fun _ _ _ h ho hs => step_inv h ho hs) inv_initial hplain hrun).tidy

def sampleKey : Key id := ⟨lit "a/b", by decide⟩

def cutOffPut : List (Event id) :=
  [.call sampleKey (.put [1]) false, .advance 0 .ok, .advance 0 .ok, .advance 0 (.name 5), .crash]

theorem cut_off_put_listed : ∃ s, run (step dataRoot) initial cutOffPut = some s ∧ s.log = [] ∧
      listObjects s dataRoot (lit "a/") = .ok [lit "a/.astrasync-5"] := by
  have hlisted : (run (step dataRoot) initial cutOffPut).map (fun s => (s.log.isEmpty, listObjects s dataRoot (lit "a/"))) =
      some (true, .ok [lit "a/.astrasync-5"]) := by decide +kernel
  obtain ⟨s, hrun, heq⟩ := Option.map_eq_some_iff.mp hlisted
  exact ⟨s, hrun, List.isEmpty_iff.mp (congrArg Prod.fst heq), congrArg Prod.snd heq⟩

def retriedPut : List (Event id) :=
  cutOffPut ++ [.call sampleKey (.put [1]) false, .advance 1 .ok, .advance 1 .ok, .advance 1 (.name 6), .advance 1 .ok,
    .advance 1 (.wrote 1), .advance 1 .ok, .advance 1 .ok, .advance 1 .ok, .advance 1 .ok]

theorem run_is_map_retried : meets (step dataRoot) plain initial retriedPut = true ∧
      ∃ s, run (step dataRoot) initial retriedPut = some s ∧ IsMap dataRoot s ∧ getObject s dataRoot (lit "a/b") = .ok [1] := by
  have hmeets : meets (step dataRoot) plain initial retriedPut = true := by decide +kernel
  have hread : (run (step dataRoot) initial retriedPut).map (getObject · dataRoot (lit "a/b")) = some (.ok [1]) := by decide +kernel
  obtain ⟨s, hrun, hget⟩ := Option.map_eq_some_iff.mp hread
  exact ⟨hmeets, s, hrun, run_is_map id (fun _ _ _ => rfl) dataRoot retriedPut s hmeets hrun, hget⟩

/-- Two calls for one key, the second of which has written its byte. -/
def besidePut : List (Event id) :=
  cutOffPut.take 4 ++ [.call sampleKey (.put [1, 2]) false, .advance 1 .ok, .advance 1 .ok, .advance 1 (.name 6), .advance 1 .ok,
    .advance 1 (.wrote 1)]

theorem run_tidy_beside : ∃ s, run (step dataRoot) initial besidePut = some s ∧
    s.calls.map (tmp ·.pc) = [some [lit "a", lit ".astrasync-5"], some [lit "a", lit ".astrasync-6"]] ∧
      read s.tree [lit "a", lit ".astrasync-6"] = some [1] ∧ Tidy s := by
  have hrun : (run (step dataRoot) initial besidePut).map
      (fun s => (s.calls.map (tmp ·.pc), read s.tree [lit "a", lit ".astrasync-6"])) =
        some ([some [lit "a", lit ".astrasync-5"], some [lit "a", lit ".astrasync-6"]], some [1]) := by decide +kernel
  obtain ⟨s, hs, heq⟩ := Option.map_eq_some_iff.mp hrun
  exact ⟨s, hs, congrArg Prod.fst heq, congrArg Prod.snd heq, run_tidy (by decide +kernel) hs⟩

end AstraSync.ObjectMap
