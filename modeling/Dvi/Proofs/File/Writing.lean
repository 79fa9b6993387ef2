import Dvi.File.Tree
import Mathlib.Data.List.Forall2

/-!
# Writing a file

A file that is written, over an old one or as a new one, leaves everything else in a tree as it is. So it can be written
again and again, and trees that differ in what was written are alike but for that.

* `Node.at?`, `Place.Reached`: the node at the end of names, and places to which a walk leads from the root;
* `Node.Written`: a node in which a file was written. **`FileTree.walk_of_written`**: what can be walked can still be
  walked;
* `FileTree.Targets`: where a file is created; **`FileTree.create_eq_ok_iff`** says that it is written there;
* **`FileTree.read_of_create`**, **`FileTree.create_of_create`**: it holds what was written, and can be written again;
* `FileTree.SameBut`: trees in which one file may have another content.
-/

namespace Dvi

/-! ## Entries -/

namespace FileTree

variable {entries before after : List (String × Node)} {name : String} {node : Node}

/-- The name of an entry that is a directory. -/
def directoryName : String × Node → Option String
  | (name, .directory _) => some name
  | (_, .file _) => none

theorem setEntry_append (hbefore : before.lookup name = none) :
    setEntry (before ++ after) name node = before ++ setEntry after name node := by
  induction before with
  | nil => rfl
  | cons e before ih =>
    obtain ⟨n, old⟩ := e
    rw [List.lookup_cons] at hbefore
    split at hbefore
    · cases hbefore
    · rename_i hne
      have hn : n ≠ name := by
        rintro rfl
        simp at hne
      rw [List.cons_append, setEntry, if_neg hn, ih hbefore, List.cons_append]

theorem setEntry_of_lookup_eq_none (h : entries.lookup name = none) :
    setEntry entries name node = entries ++ [(name, node)] := by
  have hset : setEntry (entries ++ []) name node = entries ++ setEntry [] name node := setEntry_append h
  rwa [List.append_nil] at hset

theorem exists_setEntry_of_lookup_eq_some {old : Node} (h : entries.lookup name = some old) :
    ∃ before after, before.lookup name = none ∧ entries = before ++ (name, old) :: after ∧
      ∀ node, setEntry entries name node = before ++ (name, node) :: after := by
  obtain ⟨before, after, rfl, hbefore⟩ := List.lookup_eq_some_iff.1 h
  refine ⟨before, after, List.lookup_eq_none_iff.2 hbefore, rfl, fun node => ?_⟩
  rw [setEntry_append (List.lookup_eq_none_iff.2 hbefore), setEntry, if_pos rfl]

theorem lookup_entry (hbefore : before.lookup name = none) (m : String) :
    (before ++ (name, node) :: after).lookup m = if m = name then some node else (before ++ after).lookup m := by
  rw [List.lookup_append, List.lookup_append, List.lookup_cons]
  by_cases hm : m = name
  · rw [if_pos hm, hm, hbefore, beq_self_eq_true]
    rfl
  · rw [if_neg hm, beq_false_of_ne hm]

theorem lookup_setEntry : (setEntry entries name node).lookup name = some node := by
  rcases h : entries.lookup name with _ | old
  · rw [setEntry_of_lookup_eq_none h, lookup_entry h, if_pos rfl]
  · obtain ⟨before, after, hbefore, -, hset⟩ := exists_setEntry_of_lookup_eq_some h
    rw [hset, lookup_entry hbefore, if_pos rfl]

theorem setEntry_setEntry (node' : Node) :
    setEntry (setEntry entries name node) name node' = setEntry entries name node' := by
  rcases h : entries.lookup name with _ | old
  · rw [setEntry_of_lookup_eq_none h, setEntry_append h, setEntry_of_lookup_eq_none h, setEntry, if_pos rfl]
  · obtain ⟨before, after, hbefore, -, hset⟩ := exists_setEntry_of_lookup_eq_some h
    rw [hset, hset, setEntry_append hbefore, setEntry, if_pos rfl]

end FileTree

/-! ## Nodes by their names -/

/-- The node at the end of names. -/
def Node.at? : List String → Node → Option Node
  | [], n => some n
  | _ :: _, .file _ => none
  | name :: names, .directory entries => (entries.lookup name).bind (at? names)

namespace FileTree

theorem at?_append (names : List String) (name : String) (root : Node) :
    root.at? (names ++ [name]) = (root.at? names).bind (·.at? [name]) := by
  induction names generalizing root with
  | nil => rfl
  | cons n names ih =>
    cases root with
    | file => rfl
    | directory entries =>
      rw [List.cons_append, Node.at?, Node.at?, Option.bind_assoc]
      exact congrArg _ (funext ih)

theorem at?_put (node : Node) (names : List String) (root : Node) : (put node names root).at? names = some node := by
  induction names generalizing root with
  | nil => rfl
  | cons name names ih =>
    cases root with
    | file =>
      rw [put, Node.at?, List.lookup_cons, beq_self_eq_true]
      exact ih _
    | directory entries =>
      rw [put, Node.at?, lookup_setEntry]
      exact ih _

/-- Only what was put last counts. -/
theorem put_put (node node' : Node) (names : List String) (root : Node) :
    put node' names (put node names root) = put node' names root := by
  induction names generalizing root with
  | nil => rfl
  | cons name names ih =>
    cases root with
    | file =>
      simp only [put, List.lookup_cons, beq_self_eq_true, setEntry, if_true, Option.getD_some, ih]
    | directory entries =>
      simp only [put, lookup_setEntry, Option.getD_some, setEntry_setEntry, ih]

/-- A walk leads to the place from the root. -/
inductive Place.Reached (root : Node) : Place → Prop
  | root : Reached root ⟨root, []⟩
  | into {entries : List (String × Node)} {above : List (String × Node)} {name : String} {child : Node}
    (h : Reached root ⟨.directory entries, above⟩) (hchild : entries.lookup name = some child) :
    Reached root ⟨child, (name, .directory entries) :: above⟩

theorem Place.Reached.at? {root : Node} {p : Place} (h : p.Reached root) : root.at? p.names = some p.node := by
  induction h with
  | root => rfl
  | @into entries above name child _ hchild ih =>
    have hnames : Place.names ⟨child, (name, .directory entries) :: above⟩ =
        Place.names ⟨.directory entries, above⟩ ++ [name] := by
      simp [Place.names]
    rw [hnames, at?_append, ih, Option.bind_some, Node.at?, hchild]
    rfl

theorem reached_walk {root : Node} {p q : Place} {steps : List Step} (h : p.Reached root)
    (hw : walk p steps = .ok q) : q.Reached root := by
  induction steps generalizing p with
  | nil =>
    cases hw
    exact h
  | cons step steps ih =>
    obtain ⟨_ | entries, above⟩ := p
    · cases hw
    cases step with
    | stay => exact ih h hw
    | up =>
      cases h with
      | root => exact ih .root hw
      | into h _ => exact ih h hw
    | into name =>
      simp only [walk] at hw
      split at hw
      · cases hw
      split at hw
      · cases hw
      · rename_i child hchild
        exact ih (.into h hchild) hw

theorem walk_append {p q : Place} {steps : List Step} (hw : walk p steps = .ok q) (more : List Step) :
    walk p (steps ++ more) = walk q more := by
  induction steps generalizing p with
  | nil =>
    cases hw
    rfl
  | cons step steps ih =>
    obtain ⟨_ | entries, above⟩ := p
    · cases hw
    cases step with
    | stay => exact ih hw
    | up =>
      cases above with
      | nil => exact ih hw
      | cons => exact ih hw
    | into name =>
      simp only [walk, List.cons_append] at hw ⊢
      split at hw
      · cases hw
      rename_i hname
      rw [if_neg hname]
      split at hw
      · cases hw
      · rename_i child hchild
        exact ih hw

end FileTree

/-! ## Nodes in which a file was written -/

/-- The second node is the first one with a file of that content written at one place, if at all. -/
inductive Node.Written (content : ByteArray) : Node → Node → Prop
  | same (n : Node) : Written content n n
  | replaced (old : ByteArray) : Written content (.file old) (.file content)
  | added {entries : List (String × Node)} {name : String} (h : entries.lookup name = none) :
    Written content (.directory entries) (.directory (entries ++ [(name, .file content)]))
  | inside {before after : List (String × Node)} {name : String} {n n' : Node} (hbefore : before.lookup name = none)
    (h : Written content n n') :
    Written content (.directory (before ++ (name, n) :: after)) (.directory (before ++ (name, n') :: after))

namespace Node.Written

variable {content : ByteArray} {n n' : Node} {entries entries' : List (String × Node)}

theorem of_file {old : ByteArray} (h : Written content (.file old) n') : n' = .file old ∨ n' = .file content := by
  cases h with
  | same => exact .inl rfl
  | replaced => exact .inr rfl

theorem exists_directory (h : Written content (.directory entries) n') : ∃ entries', n' = .directory entries' := by
  cases h <;> exact ⟨_, rfl⟩

theorem lookup_some (h : Written content (.directory entries) (.directory entries')) {name : String} {child : Node}
    (hchild : entries.lookup name = some child) :
    ∃ child', entries'.lookup name = some child' ∧ Written content child child' := by
  cases h with
  | same => exact ⟨child, hchild, .same child⟩
  | added hnone =>
    refine ⟨child, ?_, .same child⟩
    rw [List.lookup_append, hchild]
    rfl
  | inside hbefore h =>
    rw [FileTree.lookup_entry hbefore] at hchild ⊢
    split
    · rename_i hname
      rw [if_pos hname] at hchild
      cases hchild
      exact ⟨_, rfl, h⟩
    · rename_i hname
      rw [if_neg hname] at hchild
      exact ⟨child, hchild, .same child⟩

theorem lookup_none (h : Written content (.directory entries) (.directory entries')) {name : String}
    (hnone : entries.lookup name = none) :
    entries'.lookup name = none ∨ entries'.lookup name = some (.file content) := by
  cases h with
  | same => exact .inl hnone
  | @added _ added _ =>
    rw [List.lookup_append, hnone, List.lookup_cons]
    split
    · exact .inr rfl
    · exact .inl rfl
  | inside hbefore h =>
    rw [FileTree.lookup_entry hbefore] at hnone ⊢
    split
    · rename_i hname
      rw [if_pos hname] at hnone
      cases hnone
    · rename_i hname
      rw [if_neg hname] at hnone
      exact .inl hnone

theorem directoryNames (h : Written content (.directory entries) (.directory entries')) :
    entries'.filterMap FileTree.directoryName = entries.filterMap FileTree.directoryName := by
  cases h with
  | same => rfl
  | added => simp [FileTree.directoryName]
  | @inside before after name n n' _ h =>
    have hname : FileTree.directoryName (name, n') = FileTree.directoryName (name, n) := by
      cases h <;> rfl
    simp only [List.filterMap_append, List.filterMap_cons, hname]

theorem put {root : Node} {names : List String} {name : String} (hat : root.at? names = some (.directory entries))
    (hfree : ∀ inside, entries.lookup name ≠ some (.directory inside)) :
    Written content root (FileTree.put (.file content) (names ++ [name]) root) := by
  induction names generalizing root with
  | nil =>
    cases hat
    change Written content _ (.directory (FileTree.setEntry entries name (.file content)))
    rcases hlookup : entries.lookup name with _ | _ | inside
    · rw [FileTree.setEntry_of_lookup_eq_none hlookup]
      exact .added hlookup
    · obtain ⟨before, after, hbefore, rfl, hset⟩ := FileTree.exists_setEntry_of_lookup_eq_some hlookup
      rw [hset]
      exact .inside hbefore (.replaced _)
    · exact absurd hlookup (hfree inside)
  | cons n names ih =>
    cases root with
    | file => cases hat
    | directory es =>
      obtain ⟨child, hchild, hat⟩ := Option.bind_eq_some_iff.1 hat
      obtain ⟨before, after, hbefore, hes, hset⟩ := FileTree.exists_setEntry_of_lookup_eq_some hchild
      rw [List.cons_append, FileTree.put, hset, hchild, hes]
      exact .inside hbefore (ih hat)

end Node.Written

namespace FileTree

variable {content content' : ByteArray}

/-- A place in a tree in which a file was written. -/
structure Place.Written (content : ByteArray) (p q : Place) : Prop where
  node : Node.Written content p.node q.node
  above : List.Forall₂ (fun a b => a.1 = b.1 ∧ Node.Written content a.2 b.2) p.above q.above

theorem Place.Written.names {p q : Place} (h : p.Written content q) : q.names = p.names := by
  have habove := h.above
  rw [Place.names, Place.names]
  generalize p.above = above at habove
  generalize q.above = above' at habove
  congr 1
  induction habove with
  | nil => rfl
  | cons h _ ih => rw [List.map_cons, List.map_cons, h.1, ih]

/-- **What can be walked can still be walked after a file was written.** -/
theorem walk_of_written {p q p' : Place} {steps : List Step} (hw : walk p steps = .ok q) (h : p.Written content p') :
    ∃ q', walk p' steps = .ok q' ∧ q.Written content q' := by
  induction steps generalizing p p' with
  | nil =>
    cases hw
    exact ⟨p', rfl, h⟩
  | cons step steps ih =>
    obtain ⟨_ | entries, above⟩ := p
    · cases hw
    obtain ⟨node', above'⟩ := p'
    obtain ⟨hnode, habove⟩ := h
    dsimp only at hnode habove
    obtain ⟨entries', rfl⟩ := hnode.exists_directory
    cases step with
    | stay => exact ih hw ⟨hnode, habove⟩
    | up =>
      cases habove with
      | nil => exact ih hw ⟨hnode, .nil⟩
      | cons hdir hrest => exact ih hw ⟨hdir.2, hrest⟩
    | into name =>
      simp only [walk] at hw ⊢
      split at hw
      · cases hw
      rename_i hname
      rw [if_neg hname]
      split at hw
      · cases hw
      · rename_i child hchild
        obtain ⟨child', hchild', hwritten⟩ := hnode.lookup_some hchild
        simp only [hchild']
        exact ih hw ⟨hwritten, .cons ⟨rfl, hnode⟩ habove⟩

/-! ## Creating files -/

/-- The pieces of a path from the last on. -/
def backward (p : Path) : List (List Char) := (Path.pieces p.text.toList).reverse

/-- The pieces before the last one that is not empty. -/
def frontPieces (p : Path) : List (List Char) := ((backward p).dropWhile (· == [])).tail.reverse

/-- The last piece that is not empty. -/
def lastPiece (p : Path) : List Char := ((backward p).dropWhile (· == [])).head?.getD []

/-- A file can be created at the path, as the entry `name` of a place, which is a directory of `entries`. -/
structure Targets (t : FileTree) (p : Path) (place : Place) (entries : List (String × Node)) (name : String) :
    Prop where
  valid : validate p = .ok ()
  walks : walk ⟨t.root, []⟩ (t.stepsOfPieces p.isAbsolute (frontPieces p)) = .ok place
  node : place.node = .directory entries
  last : ofPiece (lastPiece p) = .into name
  ends : (backward p).head? ≠ some []
  short : ¬ name.utf8ByteSize > maxNameBytes
  free : ∀ inside, entries.lookup name ≠ some (.directory inside)

variable {t t' : FileTree} {p : Path} {place : Place} {entries : List (String × Node)} {name : String}

/-- What is done at the place to which the front of a path leads. -/
def createAt (t : FileTree) (p : Path) (content : ByteArray) (place : Place) : Except FileError FileTree :=
  match place.node, ofPiece (lastPiece p) with
  | .file _, _ => .error .notDirectory
  | .directory entries, .into name =>
    if (backward p).head? == some [] then .error .isDirectory
    else if name.utf8ByteSize > maxNameBytes then .error .nameTooLong
    else
      match entries.lookup name with
      | some (.directory _) => .error .isDirectory
      | _ => .ok { t with root := put (.file content) (place.names ++ [name]) t.root }
  | .directory _, _ => .error .isDirectory

theorem create_eq (t : FileTree) (p : Path) (content : ByteArray) : t.create p content =
    (validate p).bind fun _ =>
      (walk ⟨t.root, []⟩ (t.stepsOfPieces p.isAbsolute (frontPieces p))).bind (t.createAt p content) := by
  refine congrArg (Except.bind (validate p)) (funext fun _ => ?_)
  refine congrArg (Except.bind (walk _ _)) (funext fun place => ?_)
  unfold createAt
  rcases place.node with _ | entries
  · rfl
  rcases hlast : ofPiece (lastPiece p) with _ | _ | name <;> rw [lastPiece, backward] at hlast <;> rw [hlast]
  · rfl
  · rfl
  dsimp only
  by_cases hends : ((Path.pieces p.text.toList).reverse.head? == some []) = true
  · rw [if_pos hends, backward, if_pos hends]
    rfl
  by_cases hshort : name.utf8ByteSize > maxNameBytes
  · rw [if_neg hends, backward, if_neg hends, if_pos hshort, if_pos hshort]
    rfl
  · rw [if_neg hends, backward, if_neg hends, if_neg hshort, if_neg hshort]
    rfl

/-- **A file is created where it is targeted.** -/
theorem create_eq_ok_iff : t.create p content = .ok t' ↔ ∃ place entries name, t.Targets p place entries name ∧
    t' = { t with root := put (.file content) (place.names ++ [name]) t.root } := by
  rw [create_eq]
  constructor
  · intro h
    rcases hvalid : validate p with e | _ <;> rw [hvalid] at h
    · cases h
    rcases hwalk : walk ⟨t.root, []⟩ (t.stepsOfPieces p.isAbsolute (frontPieces p)) with e | place <;> rw [hwalk] at h
    · cases h
    change t.createAt p content place = .ok t' at h
    unfold createAt at h
    split at h
    · cases h
    · rename_i entries name hnode hlast
      split at h
      · cases h
      rename_i hends
      split at h
      · cases h
      rename_i hshort
      split at h
      · cases h
      rename_i hfree
      cases h
      exact ⟨place, entries, name, ⟨hvalid, hwalk, hnode, hlast, by simpa using hends, hshort, hfree⟩, rfl⟩
    · cases h
  · rintro ⟨place, entries, name, h, rfl⟩
    have hends : ((backward p).head? == some []) = false := by simpa using h.ends
    rw [h.valid, h.walks]
    change t.createAt p content place = _
    simp only [createAt, h.node, h.last, hends, if_neg h.short, Bool.false_eq_true, if_false]
    split
    · rename_i hdir
      exact absurd hdir (h.free _)
    · rfl

/-- The tree is the other one in which a file was written. -/
structure Written (content : ByteArray) (t t' : FileTree) : Prop where
  root : Node.Written content t.root t'.root
  workingDirectory : t'.workingDirectory = t.workingDirectory
  unreadable : t'.unreadable = t.unreadable

theorem written_of_create (h : t.create p content = .ok t') : t.Written content t' := by
  obtain ⟨place, entries, name, htarget, rfl⟩ := create_eq_ok_iff.1 h
  refine ⟨Node.Written.put ?_ htarget.free, rfl, rfl⟩
  rw [(reached_walk .root htarget.walks).at?, htarget.node]

theorem Written.stepsOfPieces (h : t.Written content t') (absolute : Bool) (pieces : List (List Char)) :
    t'.stepsOfPieces absolute pieces = t.stepsOfPieces absolute pieces := by
  rw [FileTree.stepsOfPieces, FileTree.stepsOfPieces, h.workingDirectory]

theorem Targets.written (h : t.Targets p place entries name) (hw : t.Written content t') :
    ∃ place' entries', t'.Targets p place' entries' name ∧ place'.names = place.names := by
  have hstart : Place.Written content ⟨t.root, []⟩ ⟨t'.root, []⟩ := ⟨hw.root, .nil⟩
  obtain ⟨place', hwalk, hplace⟩ := walk_of_written h.walks hstart
  have hnode := hplace.node
  rw [h.node] at hnode
  obtain ⟨entries', hentries⟩ := hnode.exists_directory
  rw [hentries] at hnode
  rw [← hw.stepsOfPieces] at hwalk
  refine ⟨place', entries', ⟨h.valid, hwalk, hentries, h.last, h.ends, h.short, fun inside hinside => ?_⟩, hplace.names⟩
  rcases hlookup : entries.lookup name with _ | _ | _
  · obtain hnone | hfile := hnode.lookup_none hlookup
    · rw [hnone] at hinside
      cases hinside
    · rw [hfile] at hinside
      cases hinside
  · obtain ⟨child, hchild, hwritten⟩ := hnode.lookup_some hlookup
    rw [hinside] at hchild
    cases hchild
    cases hwritten
  · exact h.free _ hlookup

/-- **A file that was created can be created again, and only the last time counts.** -/
theorem create_of_create (h : t.create p content = .ok t') (content' : ByteArray) :
    t'.create p content' = t.create p content' ∧ ∃ t'', t.create p content' = .ok t'' := by
  have hwritten := written_of_create h
  obtain ⟨place, entries, name, htarget, rfl⟩ := create_eq_ok_iff.1 h
  obtain ⟨place', entries', htarget', hnames⟩ := htarget.written hwritten
  have hfirst : t.create p content' = .ok _ := create_eq_ok_iff.2 ⟨place, entries, name, htarget, rfl⟩
  have hagain : FileTree.create _ p content' = .ok _ := create_eq_ok_iff.2 ⟨place', entries', name, htarget', rfl⟩
  rw [hnames, put_put] at hagain
  exact ⟨hagain.trans hfirst.symm, _, hfirst⟩

theorem Targets.pieces (h : t.Targets p place entries name) :
    Path.pieces p.text.toList = frontPieces p ++ [lastPiece p] := by
  have hback : Path.pieces p.text.toList = (backward p).reverse := by rw [backward, List.reverse_reverse]
  have hlast : lastPiece p ≠ [] := fun hempty => by
    have hinto := h.last
    rw [hempty] at hinto
    cases hinto
  have hends := h.ends
  rw [lastPiece] at hlast
  rw [hback, frontPieces, lastPiece]
  generalize backward p = pieces at hends hlast
  cases pieces with
  | nil => exact absurd rfl hlast
  | cons last rest =>
    have hne : last ≠ [] := by simpa using hends
    simp [hne]

/-- **A file holds what it was created with.** -/
theorem read_of_create (h : t.create p content = .ok t') : t'.read p = .ok content := by
  have hwritten := written_of_create h
  obtain ⟨place, entries, name, htarget, rfl⟩ := create_eq_ok_iff.1 h
  obtain ⟨place', entries', htarget', hnames⟩ := htarget.written hwritten
  generalize ht' : ({ t with root := put (.file content) (place.names ++ [name]) t.root } : FileTree) = t' at *
  have hfile : entries'.lookup name = some (.file content) := by
    have hat := at?_put (.file content) (place'.names ++ [name]) t.root
    have hroot : t'.root = put (.file content) (place'.names ++ [name]) t.root := by rw [← ht', hnames]
    rw [← hroot, at?_append, (reached_walk .root htarget'.walks).at?, htarget'.node, Option.bind_some, Node.at?] at hat
    obtain ⟨child, hchild, hat⟩ := Option.bind_eq_some_iff.1 hat
    cases hat
    exact hchild
  have hsteps : t'.steps p = t'.stepsOfPieces p.isAbsolute (frontPieces p) ++ [.into name] := by
    rw [steps, htarget.pieces, stepsOfPieces, stepsOfPieces, List.map_append, ← htarget.last]
    split <;> simp
  have hlocate : t'.locate p = .ok ⟨.file content, (name, place'.node) :: place'.above⟩ := by
    obtain ⟨node, above⟩ := place'
    have hnode := htarget'.node
    dsimp only at hnode
    subst hnode
    rw [locate, htarget'.valid, hsteps]
    refine (walk_append htarget'.walks _).trans ?_
    simp only [walk, if_neg htarget'.short, hfile]
  rw [read, hlocate]

/-! ## Trees that are alike but for one file -/

/-- The second tree may have one content where the first one has the other. -/
structure SameBut (content content' : ByteArray) (t t' : FileTree) : Prop where
  isFile : ∀ p, t'.isFile p = t.isFile p
  subdirectories : ∀ p, t'.subdirectories p = t.subdirectories p
  read : ∀ p, (t'.read p).toOption = (t.read p).toOption ∨ t.read p = .ok content ∧ t'.read p = .ok content'

theorem Written.locate (h : t.Written content t') (hl : t.locate p = .ok place) :
    ∃ place', t'.locate p = .ok place' ∧ place.Written content place' := by
  rw [FileTree.locate] at hl ⊢
  rcases hvalid : validate p with e | _ <;> rw [hvalid] at hl
  · cases hl
  · have hwalk : walk ⟨t.root, []⟩ (t.steps p) = .ok place := hl
    rw [steps, ← h.stepsOfPieces] at hwalk
    exact walk_of_written hwalk ⟨h.root, .nil⟩

theorem Written.isFile (h : t.Written content t') (hp : t.isFile p = true) : t'.isFile p = true := by
  rw [FileTree.isFile] at hp ⊢
  rcases hl : t.locate p with e | ⟨⟨old⟩ | entries, above⟩ <;> rw [hl] at hp
  · cases hp
  · obtain ⟨⟨node', above'⟩, hl', hplace⟩ := h.locate hl
    rw [hl']
    obtain hnode | hnode := hplace.node.of_file <;> cases hnode <;> rfl
  · cases hp

theorem Written.read (h : t.Written content t') {old : ByteArray} (hp : t.read p = .ok old) :
    t'.read p = .ok old ∨ t'.read p = .ok content := by
  rw [FileTree.read] at hp ⊢
  rcases hl : t.locate p with e | ⟨⟨_⟩ | entries, above⟩ <;> rw [hl] at hp <;> cases hp
  obtain ⟨⟨node', above'⟩, hl', hplace⟩ := h.locate hl
  rw [hl']
  obtain hnode | hnode := hplace.node.of_file <;> cases hnode
  · exact .inl rfl
  · exact .inr rfl

theorem list_eq_ok_iff {entries : List (String × Node)} : t.list p = .ok entries ↔
    ∃ place, t.locate p = .ok place ∧ place.node = .directory entries ∧ place.names ∉ t.unreadable := by
  unfold list
  rcases t.locate p with e | ⟨⟨_⟩ | entries', above⟩
  · simp
  · simp
  · by_cases hdenied : Place.names ⟨.directory entries', above⟩ ∈ t.unreadable <;> simp [hdenied]

/-- The directories in one whose entries can be listed, by name. -/
theorem subdirectories_eq {entries : List (String × Node)} (hl : t.list p = .ok entries) : t.subdirectories p =
    ((entries.filterMap directoryName).mergeSort fun a b => decide (a ≤ b)).map fun name => p.join ⟨name⟩ := by
  simp only [subdirectories, hl]
  refine congrArg (fun names : List String => (names.mergeSort _).map _) (List.filterMap_congr fun e _ => ?_)
  obtain ⟨name, node⟩ := e
  cases node <;> rfl

theorem Written.subdirectories (h : t.Written content t') {entries : List (String × Node)}
    (hl : t.list p = .ok entries) : t'.subdirectories p = t.subdirectories p := by
  obtain ⟨place, hlocate, hnode, hread⟩ := list_eq_ok_iff.1 hl
  obtain ⟨place', hlocate', hplace⟩ := h.locate hlocate
  have hwritten := hplace.node
  rw [hnode] at hwritten
  obtain ⟨entries', hentries⟩ := hwritten.exists_directory
  rw [hentries] at hwritten
  rw [← hplace.names, ← h.unreadable] at hread
  have hl' : t'.list p = .ok entries' := list_eq_ok_iff.2 ⟨place', hlocate', hentries, hread⟩
  rw [subdirectories_eq hl, subdirectories_eq hl', hwritten.directoryNames]

theorem subdirectories_of_not_listed (h : ∀ entries, t.list p ≠ .ok entries) : t.subdirectories p = [] := by
  rw [FileTree.subdirectories]
  split
  · rename_i hl
    exact absurd hl (h _)
  · rfl

/-- **What is written over can be seen in one file only.** -/
theorem sameBut_of_create {t₁ t₂ : FileTree} (h₁ : t.create p content = .ok t₁) (h₂ : t.create p content' = .ok t₂) :
    SameBut content content' t₁ t₂ := by
  have h₁₂ : t₁.Written content' t₂ := written_of_create (p := p) ((create_of_create h₁ content').1.trans h₂)
  have h₂₁ : t₂.Written content t₁ := written_of_create (p := p) ((create_of_create h₂ content).1.trans h₁)
  refine ⟨fun q => ?_, fun q => ?_, fun q => ?_⟩
  · exact Bool.eq_iff_iff.2 ⟨h₂₁.isFile, h₁₂.isFile⟩
  · by_cases hlisted : ∃ entries, t₁.list q = .ok entries
    · obtain ⟨entries, hl⟩ := hlisted
      exact h₁₂.subdirectories hl
    by_cases hlisted' : ∃ entries, t₂.list q = .ok entries
    · obtain ⟨entries, hl⟩ := hlisted'
      exact (h₂₁.subdirectories hl).symm
    · rw [subdirectories_of_not_listed fun entries hl => hlisted ⟨entries, hl⟩,
        subdirectories_of_not_listed fun entries hl => hlisted' ⟨entries, hl⟩]
  · rcases hread : t₁.read q with e | c₁
    · rcases hread' : t₂.read q with e' | c₂
      · exact .inl rfl
      · obtain h | h := h₂₁.read hread' <;> rw [hread] at h <;> cases h
    · obtain hread' | hread' := h₁₂.read hread
      · exact .inl (by rw [hread'])
      · obtain h | h := h₂₁.read hread' <;> rw [hread] at h <;> cases h
        · exact .inl (by rw [hread'])
        · exact .inr ⟨rfl, hread'⟩

end FileTree

end Dvi
