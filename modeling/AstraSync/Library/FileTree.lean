import Mathlib.Data.List.Basic
import Mathlib.Data.List.Nodup
import Mathlib.Data.Nat.Notation

/-!
Directories and files below a root. A name leads to a file, and what is written goes to the file, under whatever name it
is by then; a rename replaces the file under the new name in one step.
-/

namespace AstraSync.FileTree

section

structure Tree (N B : Type) where
  dirs : List (List N)
  files : List (List N × ℕ)
  contents : List (List B)
  names_nodup : (files.map Prod.fst).Nodup
  files_nodup : (files.map Prod.snd).Nodup
  stored : ∀ f ∈ files, f.2 < contents.length

variable {N B : Type} [DecidableEq N]

def bare : Tree N B := ⟨[], [], [], List.nodup_nil, List.nodup_nil, fun _ h => absurd h List.not_mem_nil⟩

variable (t : Tree N B) (p : List N)

def fileAt : Option ℕ := (t.files.find? (·.1 = p)).map Prod.snd

def isDir : Bool := p = [] || p ∈ t.dirs

def read : Option (List B) := (fileAt t p).bind (t.contents[·]?)

variable {t p}

theorem fileAt_eq_some {i : ℕ} : fileAt t p = some i ↔ (p, i) ∈ t.files := by
  rw [fileAt, Option.map_eq_some_iff]
  constructor
  · rintro ⟨⟨q, j⟩, hf, rfl⟩
    have hp : q = p := by simpa using List.find?_some hf
    exact hp ▸ List.mem_of_find?_eq_some hf
  · intro hmem
    cases hf : t.files.find? (·.1 = p) with
    | none => simpa using List.find?_eq_none.mp hf (p, i) hmem
    | some f =>
      have hp : f.1 = p := by simpa using List.find?_some hf
      refine ⟨f, rfl, ?_⟩
      rw [List.inj_on_of_nodup_map t.names_nodup (List.mem_of_find?_eq_some hf) hmem hp]

theorem fileAt_eq_none : fileAt t p = none ↔ p ∉ t.files.map Prod.fst := by
  rw [fileAt, Option.map_eq_none_iff, List.find?_eq_none, List.mem_map, not_exists]
  simp only [decide_eq_true_eq, not_and]

theorem fileAt_inj {q : List N} {i : ℕ} (hp : fileAt t p = some i) (hq : fileAt t q = some i) : p = q := by
  have heq := List.inj_on_of_nodup_map t.files_nodup (fileAt_eq_some.mp hp) (fileAt_eq_some.mp hq) rfl
  exact congrArg Prod.fst heq

theorem read_of_fileAt {i : ℕ} (h : fileAt t p = some i) : read t p = t.contents[i]? := by
  rw [read, h, Option.bind_some]

theorem read_isSome : (read t p).isSome = (fileAt t p).isSome := by
  cases h : fileAt t p with
  | none => rw [read, h]; rfl
  | some =>
    have hlt := t.stored _ (fileAt_eq_some.mp h)
    simp [read_of_fileAt h, hlt]

variable (t p)

def mkdir : Option (Tree N B) :=
  if isDir t p then some t
  else if (fileAt t p).isSome || !isDir t p.dropLast then none
  else some { t with dirs := p :: t.dirs }

def create : Option (ℕ × Tree N B) :=
  if h : fileAt t p = none then
    if isDir t p || !isDir t p.dropLast then none
    else some (t.contents.length,
      { t with
        files := (p, t.contents.length) :: t.files
        contents := t.contents ++ [[]]
        names_nodup := List.nodup_cons.mpr ⟨fileAt_eq_none.mp h, t.names_nodup⟩
        files_nodup := by
          refine List.nodup_cons.mpr ⟨fun hmem => ?_, t.files_nodup⟩
          obtain ⟨f, hf, heq⟩ := List.mem_map.mp hmem
          exact absurd (t.stored f hf) (by simp [heq])
        stored := by
          intro f hf
          rw [List.length_append]
          rcases List.mem_cons.mp hf with rfl | hf
          · simp
          · exact Nat.lt_add_right 1 (t.stored f hf) })
  else none

def append (i : ℕ) (bytes : List B) : Tree N B :=
  { t with
    contents := t.contents.modify i (· ++ bytes)
    stored := by
      intro f hf
      rw [List.length_modify]
      exact t.stored f hf }

def rename (old new : List N) : Option (Tree N B) :=
  match h : fileAt t old with
  | none => none
  | some i =>
    if isDir t new || !isDir t new.dropLast then none
    else some
      { t with
        files := (new, i) :: t.files.filter fun f => f.1 ≠ old ∧ f.1 ≠ new
        names_nodup := by
          refine List.nodup_cons.mpr ⟨fun hmem => ?_, t.names_nodup.sublist (List.filter_sublist.map _)⟩
          obtain ⟨f, hf, heq⟩ := List.mem_map.mp hmem
          have := (List.mem_filter.mp hf).2
          simp [heq] at this
        files_nodup := by
          refine List.nodup_cons.mpr ⟨fun hmem => ?_, t.files_nodup.sublist (List.filter_sublist.map _)⟩
          obtain ⟨f, hf, heq⟩ := List.mem_map.mp hmem
          obtain ⟨hf, hne⟩ := List.mem_filter.mp hf
          have hold : f = (old, i) := List.inj_on_of_nodup_map t.files_nodup hf (fileAt_eq_some.mp h) heq
          simp [hold] at hne
        stored := by
          intro f hf
          rcases List.mem_cons.mp hf with rfl | hf
          · exact t.stored (old, i) (fileAt_eq_some.mp h)
          · exact t.stored f (List.mem_of_mem_filter hf) }

def remove : Option (Tree N B) :=
  if (fileAt t p).isSome then
    some
      { t with
        files := t.files.filter (·.1 ≠ p)
        names_nodup := t.names_nodup.sublist (List.filter_sublist.map _)
        files_nodup := t.files_nodup.sublist (List.filter_sublist.map _)
        stored := fun f hf => t.stored f (List.mem_of_mem_filter hf) }
  else if p ∈ t.dirs ∧ (∀ f ∈ t.files, f.1.dropLast ≠ p) ∧ (∀ d ∈ t.dirs, d.dropLast ≠ p) then
    some { t with dirs := t.dirs.filter (· ≠ p) }
  else none

end

variable {N B : Type} [DecidableEq N] {t t' : Tree N B} {p q : List N} {i j : ℕ}

theorem fileAt_congr (h : t'.files = t.files) (q : List N) : fileAt t' q = fileAt t q := by
  rw [fileAt, fileAt, h]

theorem mkdir_keeps (h : mkdir t p = some t') : t'.files = t.files ∧ t'.contents = t.contents := by
  unfold mkdir at h
  split at h
  · cases h
    exact ⟨rfl, rfl⟩
  · split_ifs at h
    cases h
    exact ⟨rfl, rfl⟩

structure Created (t : Tree N B) (p : List N) (i : ℕ) (t' : Tree N B) : Prop where
  fresh : i = t.contents.length
  contents : t'.contents = t.contents ++ [[]]
  absent : fileAt t p = none
  fileAt : ∀ q j, fileAt t' q = some j ↔ (q = p ∧ j = i) ∨ fileAt t q = some j

theorem create_created (h : create t p = some (i, t')) : Created t p i t' := by
  unfold create at h
  split at h
  · next habsent =>
    split_ifs at h
    cases h
    refine ⟨rfl, rfl, habsent, fun q j => ?_⟩
    rw [fileAt_eq_some, fileAt_eq_some, List.mem_cons, Prod.mk.injEq]
  · cases h

structure Renamed (t : Tree N B) (old new : List N) (t' : Tree N B) : Prop where
  contents : t'.contents = t.contents
  fileAt : ∃ i, fileAt t old = some i ∧
    ∀ q j, fileAt t' q = some j ↔ (q = new ∧ j = i) ∨ (q ≠ old ∧ q ≠ new ∧ FileTree.fileAt t q = some j)

theorem rename_renamed {old new : List N} (h : rename t old new = some t') : Renamed t old new t' := by
  unfold rename at h
  split at h
  · cases h
  · next i hi =>
    split at h
    · cases h
    · cases h
      refine ⟨rfl, i, hi, fun q j => ?_⟩
      rw [fileAt_eq_some, fileAt_eq_some, List.mem_cons, Prod.mk.injEq, List.mem_filter]
      simp only [decide_eq_true_eq]
      tauto

structure Removed (t : Tree N B) (p : List N) (t' : Tree N B) : Prop where
  contents : t'.contents = t.contents
  fileAt : ∀ q j, fileAt t' q = some j ↔ q ≠ p ∧ fileAt t q = some j

theorem remove_removed (h : remove t p = some t') : Removed t p t' := by
  unfold remove at h
  split at h
  · cases h
    refine ⟨rfl, fun q j => ?_⟩
    rw [fileAt_eq_some, fileAt_eq_some, List.mem_filter]
    simp only [decide_eq_true_eq]
    exact and_comm
  · next habsent =>
    split at h
    · cases h
      refine ⟨rfl, fun q j => ?_⟩
      change fileAt t q = some j ↔ _
      refine ⟨fun hj => ⟨?_, hj⟩, And.right⟩
      rintro rfl
      exact habsent (by rw [hj]; rfl)
    · cases h

def Keeps (t t' : Tree N B) (p : List N) : Prop :=
  fileAt t' p = fileAt t p ∧ ∀ file, fileAt t p = some file → t'.contents[file]? = t.contents[file]?

theorem Keeps.read (h : Keeps t t' p) : read t' p = read t p := by
  cases hp : fileAt t p with
  | none => rw [FileTree.read, FileTree.read, h.1, hp]; rfl
  | some file => rw [read_of_fileAt (h.1.trans hp), read_of_fileAt hp, h.2 file hp]

theorem Keeps.of_eq (hfiles : t'.files = t.files) (hcontents : t'.contents = t.contents) (p : List N) : Keeps t t' p :=
  ⟨fileAt_congr hfiles p, fun _ _ => by rw [hcontents]⟩

theorem keeps_of_iff (hcontents : t'.contents = t.contents) (h : ∀ j, fileAt t' p = some j ↔ fileAt t p = some j) :
    Keeps t t' p :=
  ⟨Option.ext h, fun _ _ => by rw [hcontents]⟩

theorem Created.keeps {q : List N} {file : ℕ} (h : Created t q file t') (hne : p ≠ q) : Keeps t t' p := by
  refine ⟨Option.ext fun j => ?_, fun j hj => ?_⟩
  · rw [h.fileAt]
    simp [hne]
  · rw [h.contents, List.getElem?_append_left (t.stored _ (fileAt_eq_some.mp hj))]

theorem Renamed.keeps {old new : List N} (h : Renamed t old new t') (hold : p ≠ old) (hnew : p ≠ new) : Keeps t t' p := by
  obtain ⟨i, -, hfileAt⟩ := h.fileAt
  refine keeps_of_iff h.contents fun j => ?_
  rw [hfileAt]
  simp [hold, hnew]

theorem Removed.keeps {q : List N} (h : Removed t q t') (hne : p ≠ q) : Keeps t t' p := by
  refine keeps_of_iff h.contents fun j => ?_
  rw [h.fileAt]
  simp [hne]

theorem append_keeps {q : List N} {file : ℕ} (bytes : List B) (hq : fileAt t q = some file) (hne : p ≠ q) :
    Keeps t (append t file bytes) p := by
  refine ⟨rfl, fun j hj => ?_⟩
  have hij : file ≠ j := fun heq => hne (fileAt_inj hj (heq ▸ hq))
  exact (List.getElem?_modify _ _ _ _).trans (by simp [hij])

end AstraSync.FileTree
