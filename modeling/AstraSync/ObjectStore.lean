import AstraSync.Library.ByteStrings
import AstraSync.Library.FileTree
import AstraSync.Library.Slots
import AstraSync.Library.Transitions
import Mathlib.Data.List.Sort

namespace AstraSync.ObjectStore

open ByteStrings FileTree

section

abbrev Path := List Bytes

def dot : Bytes := [46]

def dotDot : Bytes := [46, 46]

def backslash : UInt8 := 92

def isLetter (b : UInt8) : Bool := (65 ≤ b && b ≤ 90) || (97 ≤ b && b ≤ 122)

def hasWindowsVolumePrefix : Bytes → Bool
  | b :: 58 :: _ => isLetter b
  | _ => false

def replaceBackslashes (s : Bytes) : Bytes := s.map fun b => if b = backslash then slash else b

def cleanPart (done : Path) (part : Bytes) : Path :=
  if part = [] ∨ part = dot then done
  else if part = dotDot then
    match done.getLast? with
    | none => [dotDot]
    | some last => if last = dotDot then done ++ [dotDot] else done.dropLast
  else done ++ [part]

def clean (parts : List Bytes) : Path := parts.foldl cleanPart []

abbrev plain (part : Bytes) : Prop := part ≠ [] ∧ part ≠ dot ∧ part ≠ dotDot

/-- A cleaned root: behind the slash of an absolute one there is no `..`, and a relative one is not `.`. -/
structure Root where
  absolute : Bool
  ups : ℕ
  names : Path
  names_plain : ∀ part ∈ names, plain part
  ups_eq : absolute = true → ups = 0
  named : absolute = true ∨ 0 < ups ∨ names ≠ []

def Root.parts (root : Root) : Path := List.replicate root.ups dotDot ++ root.names

def joinRoot (root : Root) (clean : Path) : Path :=
  let joined := clean.foldl cleanPart root.parts
  if root.absolute then joined.dropWhile (· = dotDot) else joined

inductive StoreError
  | context
  | invalidKey
  | os
  | wrapped (text : String)
  deriving DecidableEq

variable (trimSpace : Bytes → Bytes) (root : Root)

def path (key : Bytes) : Except StoreError Path :=
  let key := trimSpace (replaceBackslashes key)
  if key = [] ∨ key.head? = some slash ∨ hasWindowsVolumePrefix key = true then .error .invalidKey
  else
    let path := joinRoot root (clean (split slash key))
    let rel := path.drop root.parts.length
    if root.parts <+: path ∧ rel.head? ≠ some dotDot then .ok rel else .error .invalidKey

def canonical (key : Bytes) : Bool :=
  (split slash key).all (fun part => part ≠ [] && part ≠ dot && part ≠ dotDot) && backslash ∉ key && trimSpace key = key &&
    !hasWindowsVolumePrefix key

structure Key where
  text : Bytes
  canonical : canonical trimSpace text = true

def Key.path {trimSpace : Bytes → Bytes} (k : Key trimSpace) : Path := split slash k.text

variable {trimSpace}

theorem Key.path_inj {k l : Key trimSpace} (h : k.path = l.path) : k.text = l.text := by
  rw [← join_split slash k.text, ← join_split slash l.text]
  exact congrArg (join slash) h

theorem Key.part_ne (k : Key trimSpace) {part : Bytes} (h : part ∈ k.path) : plain part := by
  have hkey := k.canonical
  simp only [ObjectStore.canonical, Bool.and_eq_true, List.all_eq_true, decide_eq_true_eq] at hkey
  obtain ⟨⟨hne, hdot⟩, hdotDot⟩ := hkey.1.1.1 part h
  exact ⟨hne, hdot, hdotDot⟩

theorem replaceBackslashes_of_not_mem {s : Bytes} (h : backslash ∉ s) : replaceBackslashes s = s := by
  refine (List.map_congr_left fun b hb => if_neg ?_).trans (List.map_id s)
  rintro rfl
  exact h hb

theorem foldl_plain {parts : List Bytes} (h : ∀ part ∈ parts, plain part) (done : Path) :
    parts.foldl cleanPart done = done ++ parts := by
  induction parts generalizing done with
  | nil => simp
  | cons part parts ih =>
    obtain ⟨⟨hne, hdot, hdotDot⟩, hrest⟩ := List.forall_mem_cons.mp h
    have hpart : cleanPart done part = done ++ [part] := by simp [cleanPart, hne, hdot, hdotDot]
    rw [List.foldl_cons, hpart, ih hrest, List.append_assoc, List.singleton_append]

theorem clean_of_plain {parts : List Bytes} (h : ∀ part ∈ parts, plain part) : clean parts = parts := foldl_plain h []

theorem dropWhile_plain {parts : List Bytes} (h : ∀ part ∈ parts, plain part) : parts.dropWhile (· = dotDot) = parts := by
  cases parts with
  | nil => rfl
  | cons part =>
    have hpart := (h part List.mem_cons_self).2.2
    simp [hpart]

theorem parts_plain {root : Root} (h : root.absolute = true) : ∀ part ∈ root.parts, plain part := by
  rw [Root.parts, root.ups_eq h]
  exact root.names_plain

theorem joinRoot_of_plain {parts : List Bytes} (h : ∀ part ∈ parts, plain part) :
    joinRoot root parts = root.parts ++ parts := by
  simp only [joinRoot, foldl_plain h]
  split_ifs with habsolute
  · exact dropWhile_plain fun part hpart => (List.mem_append.mp hpart).elim (parts_plain habsolute part) (h part)
  · rfl

theorem path_of_plain {key : Bytes} (htrim : trimSpace key = key) (hbackslash : backslash ∉ key)
    (hvolume : hasWindowsVolumePrefix key = false)
    (hparts : ∀ part ∈ split slash key, plain part) :
    path trimSpace root key = .ok (split slash key) := by
  have hne : key ≠ [] := by
    rintro rfl
    exact (hparts [] (by simp [split])).1 rfl
  have hhead : key.head? ≠ some slash := by
    intro hhead
    obtain ⟨rest, rfl⟩ : ∃ rest, key = slash :: rest := ⟨key.tail, (List.cons_head?_tail hhead).symm⟩
    exact (hparts [] (by rw [← List.nil_append (slash :: rest), split_append]; simp [split])).1 rfl
  have hdown : (split slash key).head? ≠ some dotDot := fun hup => (hparts dotDot (List.mem_of_mem_head? hup)).2.2 rfl
  dsimp only [path]
  rw [replaceBackslashes_of_not_mem hbackslash, htrim, if_neg (by simp [hne, hhead, hvolume]), clean_of_plain hparts,
    joinRoot_of_plain root hparts, List.drop_left, if_pos ⟨List.prefix_append _ _, hdown⟩]

theorem Key.path_eq (k : Key trimSpace) : ObjectStore.path trimSpace root k.text = .ok k.path := by
  have hkey := k.canonical
  simp only [ObjectStore.canonical, Bool.and_eq_true, decide_eq_true_eq, Bool.not_eq_true'] at hkey
  exact path_of_plain root hkey.1.2 hkey.1.1.2 hkey.2 fun _ h => k.part_ne h

end

section

variable {trimSpace : Bytes → Bytes}

inductive Change
  | put (data : Bytes)
  | delete

def Change.result : Change → Option Bytes
  | .put data => some data
  | .delete => none

inductive Pc
  | makeDirs (rest : List Path)
  | createTemp
  | chmod (tmp : Path) (file : ℕ)
  | write (tmp : Path) (file : ℕ) (rest : Bytes)
  | close (tmp : Path) (file : ℕ)
  | rename (tmp : Path) (file : ℕ)
  | removeTemp (tmp : Path) (err : Option StoreError)
  | remove
  | done (answer : Option (Option StoreError))

structure Call (trimSpace : Bytes → Bytes) where
  key : Key trimSpace
  change : Change
  path : Path
  pc : Pc

structure Effect where
  call : ℕ
  key : Bytes
  change : Change

structure Store (trimSpace : Bytes → Bytes) where
  tree : Tree Bytes UInt8
  calls : List (Call trimSpace)
  log : List Effect

def initial : Store trimSpace := ⟨bare, [], []⟩

def latest (log : List Effect) (key : Bytes) : Option Bytes :=
  log.foldl (fun object e => if e.key = key then e.change.result else object) none

def tempName (n : ℕ) : Bytes := lit ".astrasync-" ++ decimal n

def temporary (p : Path) : Bool := p.getLast?.any fun name => decide (lit ".astrasync-" <+: name)

def dirsAbove (p : Path) : List Path := ((List.range p.length).map p.take).tail

def createDirectory : StoreError := .wrapped "create object directory"

def createTemporary : StoreError := .wrapped "create temporary object"

def writeObject : StoreError := .wrapped "write object"

def commitObject : StoreError := .wrapped "commit object"

def deleteFailed : StoreError := .wrapped "delete object"

inductive Input
  | ok
  | failed
  | name (n : ℕ)
  | wrote (n : ℕ)

variable (s : Store trimSpace) (i : ℕ) (c : Call trimSpace)

def advance (tree : Tree Bytes UInt8) (pc : Pc) : Store trimSpace :=
  { s with tree, calls := s.calls.set i { c with pc } }

def committed (tree : Tree Bytes UInt8) (pc : Pc) : Store trimSpace :=
  { tree, calls := s.calls.set i { c with pc }, log := s.log ++ [⟨i, c.key.text, c.change⟩] }

def putObject (data : Bytes) : Input → Option (Store trimSpace)
  | .ok =>
    match c.pc with
    | .makeDirs [] => some (advance s i c s.tree .createTemp)
    | .makeDirs (d :: rest) =>
      match mkdir s.tree d with
      | some tree => some (advance s i c tree (.makeDirs rest))
      | none => some (advance s i c s.tree (.done (some (some createDirectory))))
    | .chmod tmp file => some (advance s i c s.tree (.write tmp file data))
    | .write tmp file [] => some (advance s i c s.tree (.close tmp file))
    | .close tmp file => some (advance s i c s.tree (.rename tmp file))
    | .rename tmp _ =>
      match rename s.tree tmp c.path with
      | some tree => some (committed s i c tree (.removeTemp tmp none))
      | none => some (advance s i c s.tree (.removeTemp tmp (some commitObject)))
    | .removeTemp tmp err => some (advance s i c ((remove s.tree tmp).getD s.tree) (.done (some err)))
    | _ => none
  | .failed =>
    match c.pc with
    | .makeDirs _ => some (advance s i c s.tree (.done (some (some createDirectory))))
    | .createTemp => some (advance s i c s.tree (.done (some (some createTemporary))))
    | .chmod tmp _ => some (advance s i c s.tree (.removeTemp tmp (some .os)))
    | .write tmp _ _ => some (advance s i c s.tree (.removeTemp tmp (some writeObject)))
    | .close tmp _ => some (advance s i c s.tree (.removeTemp tmp (some .os)))
    | .rename tmp _ => some (advance s i c s.tree (.removeTemp tmp (some commitObject)))
    | .removeTemp _ err => some (advance s i c s.tree (.done (some err)))
    | _ => none
  | .name n =>
    match c.pc with
    | .createTemp =>
      let tmp := c.path.dropLast ++ [tempName n]
      (create s.tree tmp).map fun (file, tree) => advance s i c tree (.chmod tmp file)
    | _ => none
  | .wrote n =>
    match c.pc with
    | .write tmp file rest =>
      some (advance s i c (append s.tree file (rest.take n)) (.write tmp file (rest.drop n)))
    | _ => none

def deleteObject : Input → Option (Store trimSpace)
  | .ok =>
    match c.pc with
    | .remove =>
      match remove s.tree c.path with
      | some tree => some (committed s i c tree (.done (some none)))
      | none => some (advance s i c s.tree (.done (some (some deleteFailed))))
    | _ => none
  | .failed =>
    match c.pc with
    | .remove => some (advance s i c s.tree (.done (some (some deleteFailed))))
    | _ => none
  | _ => none

def cutOff (c : Call trimSpace) : Call trimSpace :=
  match c.pc with
  | .done _ => c
  | _ => { c with pc := .done none }

inductive Event (trimSpace : Bytes → Bytes)
  | call (key : Key trimSpace) (change : Change) (cancelled : Bool)
  | advance (i : ℕ) (input : Input)
  | crash

def begin (root : Root) (key : Key trimSpace) (change : Change) (cancelled : Bool) : Call trimSpace :=
  if cancelled then ⟨key, change, [], .done (some (some .context))⟩
  else
    match path trimSpace root key.text with
    | .error e => ⟨key, change, [], .done (some (some e))⟩
    | .ok p =>
      match change with
      | .put _ => ⟨key, change, p, .makeDirs (dirsAbove p)⟩
      | .delete => ⟨key, change, p, .remove⟩

def step (root : Root) (s : Store trimSpace) : Event trimSpace → Option (Store trimSpace)
  | .call key change cancelled => some { s with calls := s.calls ++ [begin root key change cancelled] }
  | .advance i input =>
    s.calls[i]?.bind fun c =>
      match c.change with
      | .put data => putObject s i c data input
      | .delete => deleteObject s i c input
  | .crash => some { s with calls := s.calls.map cutOff }

def getObject (root : Root) (key : Bytes) : Except StoreError Bytes :=
  match path trimSpace root key with
  | .error e => .error e
  | .ok p =>
    match read s.tree p with
    | some data => .ok data
    | none => .error (.wrapped "read object")

def trimSlashes (s : Bytes) : Bytes := ((s.dropWhile (· = slash)).reverse.dropWhile (· = slash)).reverse

def walk (below : Bytes) : List Bytes :=
  ((s.tree.files.map fun f => join slash f.1).filter fun key =>
    below = [] || decide (below ++ [slash] <+: key) || key = below).insertionSort (· ≤ ·)

def listObjects (root : Root) (keyPrefix : Bytes) : Except StoreError (List Bytes) :=
  let below := trimSlashes (replaceBackslashes keyPrefix)
  if below = [] then .ok (walk s below)
  else
    match path trimSpace root (below ++ lit "/.probe") with
    | .error e => .error e
    | .ok _ => .ok (walk s below)

end

/-- What the operating system is asked for; `open` stands for reading as a stream. -/
inductive SystemCall
  | mkdirAll (dir : Path)
  | createTemp (dir : Path) (name : Bytes)
  | rename (source target : Path)
  | remove (file : Path)
  | readFile (file : Path)
  | open (file : Path)
  deriving DecidableEq

/-- The files a call creates, reads, replaces or removes: `mkdirAll` makes directories only. -/
def SystemCall.files : SystemCall → List Path
  | .mkdirAll _ => []
  | .createTemp dir name => [dir ++ [name]]
  | .rename source target => [source, target]
  | .remove file | .readFile file | .open file => [file]

inductive Operation
  | putObject
  | getObject
  | getObjectReader
  | deleteObject
  deriving DecidableEq

/-- The calls of an operation on a path, where `temp` numbers the temporary file, if one could be created, and
`written` says that it was filled and closed. -/
def Operation.calls (file : Path) (temp : Option ℕ) (written : Bool) : Operation → List SystemCall
  | .putObject => .mkdirAll file.dropLast :: temp.elim [] fun n =>
      .createTemp file.dropLast (tempName n) ::
        (if written then [.rename (file.dropLast ++ [tempName n]) file] else []) ++ [.remove (file.dropLast ++ [tempName n])]
  | .getObject => [.readFile file]
  | .getObjectReader => [.open file]
  | .deleteObject => [.remove file]

def perform (trimSpace : Bytes → Bytes) (root : Root) (key : Bytes) (temp : Option ℕ) (written : Bool)
    (operation : Operation) : List SystemCall :=
  match path trimSpace root key with
  | .error _ => []
  | .ok rel => operation.calls (root.parts ++ rel) temp written

variable {trimSpace : Bytes → Bytes} {root : Root} {rel : Path}

theorem cleanPart_up (u : ℕ) {names : Path} (h : ∀ part ∈ names, plain part) :
    cleanPart (List.replicate u dotDot ++ names) dotDot =
      List.replicate (u + (1 - names.length)) dotDot ++ names.dropLast := by
  have hskip : ¬(dotDot = [] ∨ dotDot = dot) := by decide
  rw [cleanPart, if_neg hskip, if_pos rfl]
  rcases List.eq_nil_or_concat names with rfl | ⟨front, last, rfl⟩
  · cases u <;> simp [List.replicate_succ']
  · have hlast := (h last (by simp)).2.2
    simp [← List.append_assoc, hlast]

theorem foldl_up (u k : ℕ) {names : Path} (h : ∀ part ∈ names, plain part) :
    (List.replicate k dotDot).foldl cleanPart (List.replicate u dotDot ++ names) =
      List.replicate (u + (k - names.length)) dotDot ++ names.take (names.length - k) := by
  induction k generalizing u names with
  | zero => simp
  | succ k ih =>
    rw [List.replicate_succ, List.foldl_cons, cleanPart_up u h, ih _ fun part hp => h part (List.mem_of_mem_dropLast hp),
      List.length_dropLast, List.dropLast_eq_take, List.take_take]
    congr 2 <;> omega

theorem clean_shape (parts : List Bytes) :
    ∃ k names, clean parts = List.replicate k dotDot ++ names ∧ ∀ part ∈ names, plain part := by
  refine List.foldlRecOn (motive := fun done => ∃ k names, done = List.replicate k dotDot ++ names ∧
    ∀ part ∈ names, plain part) parts _ ⟨0, [], rfl, by simp⟩ ?_
  rintro _ ⟨k, names, rfl, hnames⟩ part -
  by_cases hup : part = dotDot
  · rw [hup]
    exact ⟨_, _, cleanPart_up k hnames, fun part hp => hnames part (List.mem_of_mem_dropLast hp)⟩
  · by_cases hskip : part = [] ∨ part = dot
    · exact ⟨k, names, if_pos hskip, hnames⟩
    · refine ⟨k, names ++ [part], by simp [cleanPart, hskip, hup], fun other h => ?_⟩
      rcases List.mem_append.mp h with h | h
      · exact hnames other h
      · cases List.mem_singleton.mp h
        exact ⟨fun h => hskip (.inl h), fun h => hskip (.inr h), hup⟩

theorem joinRoot_shape (root : Root) (k : ℕ) {down : Path} (h : ∀ part ∈ down, plain part) :
    joinRoot root (List.replicate k dotDot ++ down) =
      List.replicate (if root.absolute then 0 else root.ups + (k - root.names.length)) dotDot ++
        (root.names.take (root.names.length - k) ++ down) := by
  have hplain : ∀ part ∈ root.names.take (root.names.length - k) ++ down, plain part := fun part hpart =>
    (List.mem_append.mp hpart).elim (fun hp => root.names_plain part (List.mem_of_mem_take hp)) (h part)
  simp only [joinRoot, List.foldl_append, Root.parts, foldl_up _ _ root.names_plain, foldl_plain h, List.append_assoc]
  split_ifs
  · rw [List.dropWhile_append_of_pos (by simp), dropWhile_plain hplain]
    rfl
  · rfl

theorem path_plain {key : Bytes} (h : path trimSpace root key = .ok rel) : ∀ part ∈ rel, plain part := by
  dsimp only [path] at h
  split_ifs at h with hrefused haccepted
  cases h
  obtain ⟨k, down, hclean, hdown⟩ := clean_shape (split slash (trimSpace (replaceBackslashes key)))
  rw [hclean, joinRoot_shape root k hdown] at haccepted ⊢
  generalize (if root.absolute then 0 else root.ups + (k - root.names.length)) = ups at haccepted ⊢
  rw [List.drop_append, List.drop_replicate] at haccepted ⊢
  intro part hpart
  rcases List.mem_append.mp hpart with hpart | hpart
  · -- then the rest starts with `..`
    have hpos := (List.mem_replicate.mp hpart).1
    refine absurd ?_ haccepted.2
    obtain ⟨n, hn⟩ := Nat.exists_eq_succ_of_ne_zero hpos
    rw [hn]
    rfl
  · rcases List.mem_append.mp (List.mem_of_mem_drop hpart) with hpart | hpart
    · exact root.names_plain part (List.mem_of_mem_take hpart)
    · exact hdown part hpart

/-- The key climbs from the root and comes down to it again: cleaned, it is a number of `..`, none in the case of `.`,
followed by as many of the last names of the root. -/
def Returns (trimSpace : Bytes → Bytes) (root : Root) (key : Bytes) : Prop :=
  let key := trimSpace (replaceBackslashes key)
  key ≠ [] ∧ key.head? ≠ some slash ∧ hasWindowsVolumePrefix key = false ∧
    ∃ k, (k ≤ root.names.length ∨ root.absolute = true) ∧
      clean (split slash key) = List.replicate k dotDot ++ root.names.drop (root.names.length - k)

theorem path_root_iff (key : Bytes) : path trimSpace root key = .ok [] ↔ Returns trimSpace root key := by
  obtain ⟨k, down, hclean, hdown⟩ := clean_shape (split slash (trimSpace (replaceBackslashes key)))
  have hdrop (k : ℕ) : ∀ part ∈ root.names.drop (root.names.length - k), plain part :=
    fun part hp => root.names_plain part (List.mem_of_mem_drop hp)
  dsimp only [path, Returns]
  constructor
  · intro h
    split_ifs at h with hrefused haccepted
    have hlength := congrArg List.length (Except.ok.inj h)
    have heq := haccepted.1.eq_of_length_le (by simpa [Nat.sub_eq_zero_iff_le] using hlength)
    simp only [not_or, Bool.not_eq_true] at hrefused
    refine ⟨hrefused.1, hrefused.2.1, hrefused.2.2, k, ?_⟩
    rw [hclean, joinRoot_shape root k hdown, Root.parts] at heq
    have hcancel (heq : root.names.take (root.names.length - k) ++ down = root.names) :
        down = root.names.drop (root.names.length - k) :=
      List.append_cancel_left (heq.trans (List.take_append_drop _ _).symm)
    by_cases habsolute : root.absolute = true
    · rw [if_pos habsolute, root.ups_eq habsolute] at heq
      exact ⟨.inr habsolute, by rw [hclean, hcancel heq.symm]⟩
    · rw [if_neg habsolute, List.replicate_add, List.append_assoc] at heq
      replace heq := List.append_cancel_left heq
      have hle : k ≤ root.names.length := by
        by_contra hlt
        have hmem : dotDot ∈ root.names := by
          rw [heq]
          exact List.mem_append_left _ (List.mem_replicate.mpr ⟨by omega, rfl⟩)
        exact (root.names_plain _ hmem).2.2 rfl
      rw [Nat.sub_eq_zero_of_le hle] at heq
      exact ⟨.inl hle, by rw [hclean, hcancel heq.symm]⟩
  · rintro ⟨hne, hhead, hvolume, k, hk, hclean⟩
    have hjoin : joinRoot root (clean (split slash (trimSpace (replaceBackslashes key)))) = root.parts := by
      rw [hclean, joinRoot_shape root k (hdrop k), List.take_append_drop, Root.parts]
      congr 2
      split_ifs with habsolute
      · exact (root.ups_eq habsolute).symm
      · have := hk.resolve_right habsolute
        omega
    rw [if_neg (by simp [hne, hhead, hvolume]), hjoin, List.drop_length, if_pos ⟨List.prefix_rfl, nofun⟩]

def Below (root : Root) (file : Path) : Prop := ∃ parts, file = root.parts ++ parts ∧ parts ≠ [] ∧ ∀ part ∈ parts, plain part

theorem tempName_plain (n : ℕ) : plain (tempName n) := by
  refine ⟨?_, ?_, ?_⟩ <;> simp [tempName, lit, dot, dotDot]

theorem calls_below (hne : rel ≠ []) (hplain : ∀ part ∈ rel, plain part) {temp : Option ℕ} {written : Bool}
    {operation : Operation} {call : SystemCall} (hcall : call ∈ operation.calls (root.parts ++ rel) temp written) :
    ∀ file ∈ call.files, Below root file := by
  have hfile : Below root (root.parts ++ rel) := ⟨rel, rfl, hne, hplain⟩
  have htemp (n : ℕ) : Below root ((root.parts ++ rel).dropLast ++ [tempName n]) := by
    rw [List.dropLast_append_of_ne_nil hne, List.append_assoc]
    refine ⟨_, rfl, by simp, fun part hpart => ?_⟩
    rcases List.mem_append.mp hpart with hpart | hpart
    · exact hplain part (List.mem_of_mem_dropLast hpart)
    · exact List.mem_singleton.mp hpart ▸ tempName_plain n
  cases operation with
  | putObject =>
    rcases List.mem_cons.mp hcall with rfl | hcall
    · simp [SystemCall.files]
    cases temp with
    | none => cases hcall
    | some n =>
      rcases List.mem_cons.mp hcall with rfl | hcall
      · simpa [SystemCall.files] using htemp n
      rcases List.mem_append.mp hcall with hcall | hcall
      · split_ifs at hcall
        · cases List.mem_singleton.mp hcall
          simpa [SystemCall.files] using ⟨htemp n, hfile⟩
        · cases hcall
      · cases List.mem_singleton.mp hcall
        simpa [SystemCall.files] using htemp n
  | getObject | getObjectReader | deleteObject =>
    cases List.mem_singleton.mp hcall
    simpa [SystemCall.files] using hfile

/-- Whatever the operating system answers, the operations on a key work on files strictly below the root only, if and
only if the key does not lead back to the root. -/
theorem operations_contained (trimSpace : Bytes → Bytes) (root : Root) (key : Bytes) :
    (∀ operation temp written, ∀ call ∈ perform trimSpace root key temp written operation, ∀ file ∈ call.files,
      Below root file) ↔ ¬ Returns trimSpace root key := by
  rw [← path_root_iff]
  constructor
  · intro hall hpath
    obtain ⟨parts, heq, hne, -⟩ := hall .deleteObject none false (.remove (root.parts ++ [])) (by simp [perform, hpath, Operation.calls])
      (root.parts ++ []) (by simp [SystemCall.files])
    exact hne (List.append_cancel_left heq).symm
  · intro hroot operation temp written call hcall
    unfold perform at hcall
    split at hcall
    · cases hcall
    · rename_i rel hpath
      refine calls_below ?_ (path_plain hpath) hcall
      rintro rfl
      exact hroot hpath

def dataRoot : Root := ⟨true, 0, [lit "data", lit "r"], by decide, fun _ => rfl, .inl rfl⟩

/-- The key `.` names the root: `PutObject` works in the directory of the root, and `DeleteObject` on the root. -/
theorem dot_names_root :
    perform id dataRoot (lit ".") (some 5) true .putObject =
        [.mkdirAll [lit "data"], .createTemp [lit "data"] (lit ".astrasync-5"),
          .rename [lit "data", lit ".astrasync-5"] [lit "data", lit "r"], .remove [lit "data", lit ".astrasync-5"]] ∧
      perform id dataRoot (lit ".") none false .deleteObject = [.remove [lit "data", lit "r"]] := by
  decide +kernel

end AstraSync.ObjectStore
