import Dvi.Font.Map
import Dvi.Proofs.Tables
import Mathlib.Data.List.Basic
import Mathlib.Data.List.Induction

/-!
# What a font map holds

A font map is changed by records, one at a time or from the lines of a text. Of each name it holds what the records of
this name come to, and its order is that in which the names came to be there.

* `FontMap.Addition`, `FontMap.recordOf`: a record in its mode, and what all records of one name come to;
* `FontMap.Arrives`: the addition with which a name came to be there, after which it never was absent;
* `FontMap.get?_addAll`, `FontMap.pairwise_keys_addAll`: additions one after the other, by name and in order;
* `FontMap.Source`, `FontMap.Call`: lines that are read in a mode; what may be done to a map;
* `FontMap.addLines_eq`, `FontMap.perform_eq`: what a text adds and reports, and that nothing is added if it cannot be
  read;
* **`FontMap.holds_additions`**: a map after any calls.
-/

namespace Dvi

namespace MapMode

/-- What becomes of the record of a name with a new one. -/
def combine (mode : MapMode) (old : Option MapRecord) (new : MapRecord) : Option MapRecord :=
  match mode with
  | .replace => some new
  | .append => some (old.getD new)
  | .remove => none

end MapMode

namespace FontMap

/-! ## Additions -/

/-- A record, and how it combines with the one of its name. -/
structure Addition where
  mode : MapMode
  record : MapRecord

/-- The map with one record added, kept or removed. -/
def add (m : FontMap) (a : Addition) : FontMap := (m.apply a.mode a.record).1

/-- The map after additions, in their order. -/
def addAll (m : FontMap) (as : List Addition) : FontMap := as.foldl add m

/-- What the records of a name come to. -/
def recordOf (name : String) (as : List Addition) : Option MapRecord :=
  (as.filter (·.record.texName = name)).foldl (fun old a => a.mode.combine old a.record) none

/-- Addition `i` is the one with which a name came to be there, to stay. -/
structure Arrives (as : List Addition) (name : String) (i : Nat) : Prop where
  lt : i < as.length
  before : recordOf name (as.take i) = none
  since : ∀ j, i < j → j ≤ as.length → (recordOf name (as.take j)).isSome = true

section Names

variable (m : FontMap) (a : Addition) (as : List Addition) (name : String)

/-- **An addition counts for its own name only.** -/
theorem get?_add : (m.add a).get? name =
    if a.record.texName = name then a.mode.combine (m.get? name) a.record else m.get? name := by
  obtain ⟨mode, r⟩ := a
  by_cases hname : r.texName = name
  · subst hname
    cases mode with
    | replace => simp [add, apply, get?, MapMode.combine, Table.find?_insert]
    | append =>
      rcases h : m.records.find? r.texName with _ | old <;>
        simp [add, apply, get?, MapMode.combine, Table.contains, Table.find?_insert, h]
    | remove => simp [add, apply, get?, MapMode.combine, Table.find?_erase]
  · have hne : name ≠ r.texName := Ne.symm hname
    cases mode with
    | replace => simp [add, apply, get?, Table.find?_insert, hname, hne]
    | append =>
      by_cases h : m.records.contains r.texName = true <;>
        simp [add, apply, get?, Table.find?_insert, h, hname, hne]
    | remove => simp [add, apply, get?, Table.find?_erase, hname, hne]

theorem recordOf_concat : recordOf name (as ++ [a]) =
    if a.record.texName = name then a.mode.combine (recordOf name as) a.record else recordOf name as := by
  by_cases h : a.record.texName = name <;> simp [recordOf, List.filter_append, h]

theorem addAll_concat : m.addAll (as ++ [a]) = (m.addAll as).add a := by
  rw [addAll, List.foldl_append]
  rfl

theorem addAll_append (as' : List Addition) : m.addAll (as ++ as') = (m.addAll as).addAll as' := List.foldl_append

theorem get?_addAll : (addAll {} as).get? name = recordOf name as := by
  induction as using List.reverseRecOn with
  | nil => rfl
  | append_singleton as a ih => rw [addAll_concat, get?_add, recordOf_concat, ih]

end Names

/-! ## Order -/

section Order

variable {as : List Addition} {a : Addition} {name name' : String} {i j : Nat}

namespace Arrives

theorem isSome (h : Arrives as name i) : (recordOf name as).isSome = true := by
  simpa using h.since as.length h.lt (Nat.le_refl _)

/-- A name came to be there once, if it is there to stay. -/
theorem unique (hi : Arrives as name i) (hj : Arrives as name j) : i = j := by
  have hle {i j : Nat} (hi : Arrives as name i) (hj : Arrives as name j) : ¬ i < j := by
    intro hlt
    have hpresent := hi.since j hlt (Nat.le_of_lt hj.lt)
    rw [hj.before] at hpresent
    cases hpresent
  have hij := hle hi hj
  have hji := hle hj hi
  omega

theorem concat_iff : Arrives (as ++ [a]) name i ↔ (recordOf name (as ++ [a])).isSome = true ∧
    (Arrives as name i ∨ i = as.length ∧ recordOf name as = none) := by
  have hlength : (as ++ [a]).length = as.length + 1 := List.length_append
  -- Before the last addition the two histories are the same.
  have htake {j : Nat} (hj : j ≤ as.length) : (as ++ [a]).take j = as.take j := List.take_append_of_le_length hj
  constructor
  · intro h
    refine ⟨h.isSome, ?_⟩
    have hlt := h.lt
    have hbefore := h.before
    obtain hi | hi : i < as.length ∨ i = as.length := by omega
    · refine .inl ⟨hi, htake (Nat.le_of_lt hi) ▸ hbefore, fun j hij hj => ?_⟩
      exact htake hj ▸ h.since j hij (by omega)
    · rw [hi, htake (Nat.le_refl _), List.take_length] at hbefore
      exact .inr ⟨hi, hbefore⟩
  · rintro ⟨hsome, h | ⟨rfl, hnone⟩⟩
    · have hlt := h.lt
      refine ⟨by omega, (htake (Nat.le_of_lt hlt)).symm ▸ h.before, fun j hij hj => ?_⟩
      obtain hj | rfl : j ≤ as.length ∨ j = as.length + 1 := by omega
      · exact (htake hj).symm ▸ h.since j hij hj
      · rwa [List.take_of_length_le (Nat.le_of_eq hlength)]
    · refine ⟨by omega, by rwa [htake (Nat.le_refl _), List.take_length], fun j hij hj => ?_⟩
      rwa [List.take_of_length_le (by omega)]

end Arrives

theorem exists_arrives (h : (recordOf name as).isSome = true) : ∃ i, Arrives as name i := by
  induction as using List.reverseRecOn with
  | nil => cases h
  | append_singleton as a ih =>
    rcases hold : recordOf name as with _ | old
    · exact ⟨as.length, Arrives.concat_iff.2 ⟨h, .inr ⟨rfl, hold⟩⟩⟩
    · obtain ⟨i, hi⟩ := ih (by rw [hold]; rfl)
      exact ⟨i, Arrives.concat_iff.2 ⟨h, .inl hi⟩⟩

theorem isSome_recordOf_iff : (recordOf name as).isSome = true ↔ ∃ i, Arrives as name i :=
  ⟨exists_arrives, fun ⟨_, hi⟩ => hi.isSome⟩

/-- The first name came to be there before the second. -/
def Precedes (as : List Addition) (name name' : String) : Prop :=
  ∀ i j, Arrives as name i → Arrives as name' j → i < j

theorem Precedes.concat (h : Precedes as name name') (hname : (recordOf name as).isSome = true)
    (hname' : (recordOf name' as).isSome = true) : Precedes (as ++ [a]) name name' := by
  have hold {name : String} (hname : (recordOf name as).isSome = true) {i : Nat}
      (hi : Arrives (as ++ [a]) name i) : Arrives as name i := by
    obtain ⟨-, hi | ⟨-, hnone⟩⟩ := Arrives.concat_iff.1 hi
    · exact hi
    · rw [hnone] at hname
      cases hname
  intro i j hi hj
  exact h i j (hold hname hi) (hold hname' hj)

theorem precedes_concat (hname : (recordOf name as).isSome = true) (hname' : recordOf name' as = none) :
    Precedes (as ++ [a]) name name' := by
  intro i j hi hj
  obtain ⟨-, hi | ⟨-, hnone⟩⟩ := Arrives.concat_iff.1 hi
  · obtain ⟨-, hj | ⟨rfl, -⟩⟩ := Arrives.concat_iff.1 hj
    · have hsome := hj.isSome
      rw [hname'] at hsome
      cases hsome
    · exact hi.lt
  · rw [hnone] at hname
    cases hname

/-- An addition changes no places, except that its name goes or comes to be the last. -/
theorem keys_add (m : FontMap) (a : Addition) : (m.add a).records.keys =
    if ((m.add a).get? a.record.texName).isSome then
      if a.record.texName ∈ m.records.keys then m.records.keys else m.records.keys ++ [a.record.texName]
    else m.records.keys.filter (· ≠ a.record.texName) := by
  rw [get?_add, if_pos rfl]
  obtain ⟨mode, r⟩ := a
  cases mode with
  | replace => exact Table.keys_insert ..
  | append =>
    by_cases h : m.records.contains r.texName = true
    · have hmem := Table.contains_iff_mem_keys.1 h
      simp [add, apply, MapMode.combine, h, hmem]
    · have hmem := mt Table.contains_iff_mem_keys.2 h
      simp [add, apply, MapMode.combine, h, hmem, Table.keys_insert]
  | remove => exact Table.keys_erase ..

theorem mem_keys_iff (m : FontMap) : name ∈ m.records.keys ↔ (m.get? name).isSome = true :=
  Table.contains_iff_mem_keys.symm

/-- **Names are listed in the order in which they came to be there.** -/
theorem pairwise_keys_addAll (as : List Addition) : (addAll {} as).records.keys.Pairwise (Precedes as) := by
  induction as using List.reverseRecOn with
  | nil => exact .nil
  | append_singleton as a ih =>
    have hpresent : ∀ name ∈ (addAll {} as).records.keys, (recordOf name as).isSome = true := by
      intro name hname
      rw [← get?_addAll]
      exact (mem_keys_iff _).1 hname
    have hkept : (addAll {} as).records.keys.Pairwise (Precedes (as ++ [a])) :=
      ih.imp_of_mem fun hname hname' h => h.concat (hpresent _ hname) (hpresent _ hname')
    -- Names that stay keep their places; only one that was absent is put behind them.
    rw [addAll_concat, keys_add]
    split
    · split
      · exact hkept
      · rename_i hnew
        have hnone : recordOf a.record.texName as = none := by
          rw [mem_keys_iff, get?_addAll, Option.not_isSome_iff_eq_none] at hnew
          exact hnew
        refine List.pairwise_append.2 ⟨hkept, List.pairwise_singleton _ _, fun name hname name' hname' => ?_⟩
        rw [List.mem_singleton.1 hname']
        exact precedes_concat (hpresent name hname) hnone
    · exact hkept.filter _

end Order

theorem map_texName_addAll (as : List Addition) :
    (addAll {} as).records.values.map MapRecord.texName = (addAll {} as).records.keys := by
  have hentries : ∀ e ∈ (addAll {} as).records.entries, e.2.texName = e.1 := by
    induction as using List.reverseRecOn with
    | nil => nofun
    | append_singleton as a ih =>
      rw [addAll_concat]
      obtain ⟨mode, r⟩ := a
      have hinsert : ∀ e ∈ ((addAll {} as).records.insert r.texName r).entries, e.2.texName = e.1 := by
        intro e he
        obtain rfl | he := Table.mem_entries_insert he
        · rfl
        · exact ih e he
      cases mode with
      | replace => exact hinsert
      | append =>
        simp only [add, apply]
        split
        · exact ih
        · exact hinsert
      | remove => exact fun e he => ih e (List.mem_filter.1 he).1
  rw [Table.values, Table.keys, List.map_map]
  exact List.map_congr_left hentries

/-! ## Calls -/

/-- Lines that are read into a map. -/
structure Source where
  mode : MapMode
  label : String
  lines : List String

namespace Source

/-- Text in bytes. -/
def ofBytes (data : ByteArray) (mode : MapMode) (label : String) : Except Error Source :=
  match Utf8.decode? data with
  | some text => .ok ⟨mode, label, Text.lines text⟩
  | none => .error (.file .notUtf8)

/-- Text in a file, whose path is its label. -/
def ofFile (t : FileTree) (p : Path) (mode : MapMode) : Except Error Source :=
  match t.read p with
  | .ok data => ofBytes data mode p.text
  | .error e => .error (.file e)

/-- Text in the file that is found for a name, in front of which a sign may give another mode. -/
def ofName (r : Resolver) (t : FileTree) (name : String) (mode : MapMode) : Except Error Source :=
  let (mode, name) := (MapMode.split? name).getD (mode, name)
  match (r.resolve t name .fontMap).1 with
  | .ok p => ofFile t p mode
  | .error e => .error e

/-- The record that a line writes. -/
def addition? (s : Source) (line : String) : Option Addition :=
  match MapLine.parse line with
  | some (.ok record) => some ⟨s.mode, record⟩
  | _ => none

/-- What is wrong with a line, whose number is given. -/
def warning? (s : Source) (line : String × Nat) : Option Warning :=
  match MapLine.parse line.1 with
  | some (.error defect) => some (.mapLine s.label line.2 defect)
  | _ => none

/-- The additions of all lines that write a record. -/
def additions (s : Source) : List Addition := s.lines.filterMap s.addition?

/-- The warnings for all lines, which are counted from one. -/
def warnings (s : Source) : List Warning := (s.lines.zipIdx 1).filterMap s.warning?

end Source

theorem addLine_eq (s : Source) (state : Loaded × FontMap) (line : String × Nat) :
    (addLine s.mode s.label state line).2 = state.2.addAll (s.addition? line.1).toList ∧
      (addLine s.mode s.label state line).1.warnings = state.1.warnings ++ (s.warning? line).toList := by
  unfold addLine Source.addition? Source.warning?
  rcases MapLine.parse line.1 with _ | defect | r
  · exact ⟨rfl, (List.append_nil _).symm⟩
  · exact ⟨rfl, rfl⟩
  · exact ⟨rfl, (List.append_nil _).symm⟩

theorem foldl_addLine (s : Source) (lines : List (String × Nat)) (state : Loaded × FontMap) :
    (lines.foldl (addLine s.mode s.label) state).2 = state.2.addAll (lines.filterMap fun line => s.addition? line.1) ∧
      (lines.foldl (addLine s.mode s.label) state).1.warnings = state.1.warnings ++ lines.filterMap s.warning? := by
  induction lines generalizing state with
  | nil => exact ⟨rfl, (List.append_nil _).symm⟩
  | cons line lines ih =>
    obtain ⟨hmap, hwarnings⟩ := addLine_eq s state line
    obtain ⟨hmap', hwarnings'⟩ := ih (addLine s.mode s.label state line)
    rw [List.foldl_cons, hmap', hwarnings', hmap, hwarnings]
    simp only [List.filterMap_eq_flatMap_toList, List.flatMap_cons, addAll_append, List.append_assoc, and_self]

/-- **A text adds the records of its lines, and warns of each line in which something is wrong.** -/
theorem addLines_eq (m : FontMap) (s : Source) : (m.addLines s.lines s.mode s.label).2 = m.addAll s.additions ∧
    (m.addLines s.lines s.mode s.label).1.warnings = s.warnings := by
  obtain ⟨hmap, hwarnings⟩ := foldl_addLine s (s.lines.zipIdx 1) ({}, m)
  have hlines : (s.lines.zipIdx 1).filterMap (fun line => s.addition? line.1) = s.additions := by
    rw [Source.additions, ← List.zipIdx_map_fst 1 s.lines, List.filterMap_map, List.zipIdx_map_fst]
    rfl
  exact ⟨hlines ▸ hmap, hwarnings⟩

/-- A load of records. -/
inductive Load where
  | bytes (data : ByteArray) (mode : MapMode) (label : String)
  | file (t : FileTree) (p : Path) (mode : MapMode)
  | named (r : Resolver) (t : FileTree) (name : String) (mode : MapMode)

/-- Something that is done to a map. The files there are, and the resolver, may be others each time. -/
inductive Call where
  | insert (r : MapRecord) (mode : MapMode)
  | load (l : Load)

/-- The lines that a load reads, or why there are none. -/
def Load.source : Load → Except Error Source
  | .bytes data mode label => Source.ofBytes data mode label
  | .file t p mode => Source.ofFile t p mode
  | .named r t name mode => Source.ofName r t name mode

/-- Carries out a load. -/
def perform : Load → Loading
  | .bytes data mode label => loadBytes data mode label
  | .file t p mode => loadFile t p mode
  | .named r t name mode => (loadNamed r t name mode).1

/-- The map after a call, also if it is a load that fails. -/
def after (m : FontMap) : Call → FontMap
  | .insert r mode => (m.apply mode r).1
  | .load l =>
    match perform l m with
    | .ok _ m' => m'
    | .error _ m' => m'

/-- The records that a call adds: none if it is a load that fails. -/
def Call.additions : Call → List Addition
  | .insert record mode => [{ mode, record }]
  | .load l =>
    match l.source with
    | .ok s => s.additions
    | .error _ => []

/-- What comes of a load into a map if it reads some lines, or none. -/
def Load.result (m : FontMap) : Except Error Source → EStateM.Result Error FontMap Loaded
  | .ok s => .ok (m.addLines s.lines s.mode s.label).1 (m.addAll s.additions)
  | .error e => .error e m

theorem loadBytes_eq (m : FontMap) (data : ByteArray) (mode : MapMode) (label : String) :
    loadBytes data mode label m = Load.result m (Source.ofBytes data mode label) := by
  unfold loadBytes Source.ofBytes
  cases Utf8.decode? data with
  | none => rfl
  | some text =>
    rw [Load.result, ← (m.addLines_eq ⟨mode, label, Text.lines text⟩).1]
    rfl

theorem loadFile_eq (m : FontMap) (t : FileTree) (p : Path) (mode : MapMode) :
    loadFile t p mode m = Load.result m (Source.ofFile t p mode) := by
  unfold loadFile Source.ofFile
  cases t.read p with
  | error e => rfl
  | ok data => exact m.loadBytes_eq data mode p.text

/-- **A load adds what it reads, and nothing if it cannot read.** -/
theorem perform_eq (m : FontMap) (l : Load) : perform l m = Load.result m l.source := by
  cases l with
  | bytes data mode label => exact m.loadBytes_eq data mode label
  | file t p mode => exact m.loadFile_eq t p mode
  | named r t name mode =>
    simp only [perform, loadNamed, Load.source, Source.ofName]
    rcases r.resolve t ((MapMode.split? name).getD (mode, name)).2 .fontMap with ⟨e | p, r'⟩
    · rfl
    · exact m.loadFile_eq t p _

theorem after_eq (m : FontMap) (c : Call) : m.after c = m.addAll c.additions := by
  cases c with
  | insert r mode => rfl
  | load l =>
    rw [after, perform_eq, Call.additions]
    cases l.source <;> rfl

theorem foldl_after (m : FontMap) (cs : List Call) : cs.foldl after m = m.addAll (cs.flatMap Call.additions) := by
  induction cs generalizing m with
  | nil => rfl
  | cons c cs ih => rw [List.foldl_cons, ih, after_eq, List.flatMap_cons, addAll_append]

/-! ## Maps after calls -/

/-- **A map holds for each name what the records of this name come to**, whichever calls added them and whatever was
added for other names. Its names differ, each is that of its record, and they are listed in the order in which they
came to be there. A load adds the records of its lines, and warns of each line in which something is wrong; if it
cannot read, the map stays as it is. -/
theorem holds_additions (cs : List Call) :
    let m := cs.foldl after {}
    let as := cs.flatMap Call.additions
    (∀ name, m.get? name = recordOf name as) ∧
    m.records.keys.Nodup ∧ m.records.values.map MapRecord.texName = m.records.keys ∧
    (∀ name, name ∈ m.records.keys ↔ ∃! i, Arrives as name i) ∧
    m.records.keys.Pairwise (fun name name' => ∀ i j, Arrives as name i → Arrives as name' j → i < j) ∧
    ∀ l : Load,
      match l.source with
      | .ok s => ∃ done, perform l m = .ok done (m.after (.load l)) ∧ done.warnings = s.warnings
      | .error e => perform l m = .error e m ∧ m.after (.load l) = m := by
  intro m as
  have hm : m = addAll {} as := foldl_after {} cs
  refine ⟨fun name => ?_, m.records.keys_nodup, ?_, fun name => ?_, ?_, fun l => ?_⟩
  · rw [hm, get?_addAll]
  · rw [hm, map_texName_addAll]
  · rw [mem_keys_iff, hm, get?_addAll, isSome_recordOf_iff]
    exact ⟨fun ⟨i, hi⟩ => ⟨i, hi, fun j hj => hj.unique hi⟩, fun ⟨i, hi, _⟩ => ⟨i, hi⟩⟩
  · rw [hm]
    exact pairwise_keys_addAll as
  · have hperform := m.perform_eq l
    rcases hl : l.source with e | s <;> rw [hl] at hperform
    · exact ⟨hperform, by rw [after, hperform]; rfl⟩
    · exact ⟨_, by rw [after, hperform]; rfl, (m.addLines_eq s).2⟩

/-- A name whose record is replaced keeps its place; one that went and came back is the last. -/
example : (([⟨.replace, { texName := "a" }⟩, ⟨.replace, { texName := "b" }⟩, ⟨.replace, { texName := "a" }⟩,
    ⟨.remove, { texName := "b" }⟩, ⟨.append, { texName := "c" }⟩, ⟨.append, { texName := "b" }⟩] :
    List Addition).foldl add {}).records.keys = ["a", "c", "b"] := by decide

end FontMap

end Dvi
