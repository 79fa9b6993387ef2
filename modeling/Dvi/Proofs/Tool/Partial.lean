import Dvi.Proofs.Document.Legible
import Dvi.Proofs.Tool.Listings

/-!
# Listing parts of files

A run may be asked to show what can be read of a file that is not whole. It shows whole files as any other run does, but
it is over at the first file that cannot be opened.

* `PageLister.wholes`, `PageLister.parts`: the documents that are shown in the one and in the other case;
* `PageLister.Parted`: a run that has shown parts of files. The output file, which it may read, holds nothing but what
  was shown. **`PageLister.Parted.listPart`**: one file more; `PageLister.parted_eachData`: all files;
* `PageLister.printed_wholes`, `PageLister.printed_parts`: what is printed in each case;
* **`PageLister.printed_of_partial`**: how the two compare.
-/

namespace Dvi.Tool.PageLister

/-! ## Documents -/

/-- What can be read of a file. -/
def partReading (l : FontLibrary) (file : Path) : Document :=
  match l.files.map file with
  | .error _ => {}
  | .ok data => (interpretPartial data l).document

/-- The documents of the files that are whole. -/
def wholes (l : FontLibrary) (files : List Path) : List (Path × Document) :=
  files.filterMap fun f => (reading l f).toOption.map (f, ·)

/-- The files up to the first that cannot be opened. -/
def openable (l : FontLibrary) (files : List Path) : List Path := files.takeWhile fun f => (l.files.map f).isOk

/-- What can be read of the files. -/
def parts (l : FontLibrary) (files : List Path) : List (Path × Document) := files.map fun f => (f, partReading l f)

/-- The text that shows documents. -/
def documentsText (s : Settings) (ds : List (Path × Document)) : String :=
  String.join (ds.map fun (f, d) => documentText s f d)

theorem partReading_eq {l : FontLibrary} {file : Path} {d : Document} (h : reading l file = .ok d) :
    partReading l file = d := by
  rcases hmap : l.files.map file with e | data <;> rw [reading, hmap] at h
  · cases h
  have hpart : partReading l file = (interpretPartial data l).document := by rw [partReading, hmap]
  have hcomplete : (interpretPartial data l).complete = .ok d := h
  unfold Interpretation.complete at hcomplete
  split at hcomplete
  · exact hpart.trans (Except.ok.inj hcomplete)
  · cases hcomplete

/-- **The documents of whole files are among the parts**, in the same order. -/
theorem wholes_sublist_parts (l : FontLibrary) (files : List Path) : (wholes l files).Sublist (parts l files) := by
  induction files with
  | nil => exact .slnil
  | cons f files ih =>
    rw [wholes, List.filterMap_cons, parts, List.map_cons]
    rcases hf : reading l f with e | d
    · exact ih.cons _
    · rw [partReading_eq hf]
      exact ih.cons_cons _

theorem documentsText_cons (s : Settings) (f : Path) (d : Document) (ds : List (Path × Document)) :
    documentsText s ((f, d) :: ds) = documentText s f d ++ documentsText s ds := by
  rw [documentsText, List.map_cons, String.join_cons]
  rfl

theorem documentsText_wholes (s : Settings) (l : FontLibrary) (files : List Path) :
    documentsText s (wholes l files) = String.join (files.map fun f => shown s f (reading l f)) := by
  induction files with
  | nil => rfl
  | cons f files ih =>
    rw [List.map_cons, String.join_cons, ← ih, wholes, List.filterMap_cons]
    rcases reading l f with e | d
    · simp [shown, wholes, Except.toOption]
    · simp [shown, wholes, Except.toOption, documentsText]

/-- **Documents are shown legibly**, if their files have names. -/
theorem legible_documentsText (s : Settings) {ds : List (Path × Document)}
    (h : ∀ part ∈ ds, FileTree.validate part.1 = .ok ()) : Legible (documentsText s ds).toList := by
  induction ds with
  | nil => exact .nil
  | cons part ds ih =>
    obtain ⟨f, d⟩ := part
    have hrest := ih fun part hpart => h part (.tail _ hpart)
    have hf := h _ (.head _)
    rw [documentsText_cons, String.toList_append, documentText]
    split
    · rw [String.join_append, String.toList_append, List.append_assoc]
      exact d.legible_json _
    · have hzero : '\x00' ∉ f.text.toList := by
        intro hmem
        rw [FileTree.validate, if_pos (by simpa using hmem)] at hf
        cases hf
      rw [String.join_cons, String.join_cons, String.toList_append, String.toList_append, List.append_assoc,
        List.append_assoc]
      exact .append hzero (.append (by decide) (d.legible_listing _ hrest))

/-! ## The output file -/

/-- The files are those of the library, but for the output file, which was written anew and holds a legible text. -/
def Settled (outfile : Option String) (l : FontLibrary) (files : FileTree) : Prop :=
  match outfile with
  | none => files = l.files
  | some file => ∃ text : String, Legible text.toList ∧ l.files.create ⟨file⟩ text.toUTF8 = .ok files

/-- A library as it is when a run begins: if there is an output file, it is empty. -/
structure Prepared (outfile : Option String) (l : FontLibrary) : Prop where
  configured : l.resolver.IsConfigured
  empty : ∀ file, outfile = some file → l.files.create ⟨file⟩ "".toUTF8 = .ok l.files

theorem Prepared.settled {outfile : Option String} {l : FontLibrary} (hl : Prepared outfile l) :
    Settled outfile l l.files := by
  cases outfile with
  | none => rfl
  | some file => exact ⟨"", .nil, hl.empty file rfl⟩

theorem exists_writeOutput {t t' : FileTree} {file : String} {content : ByteArray}
    (h : t.create ⟨file⟩ content = .ok t') (text : String) :
    ∃ t'', writeOutput t' file text = .ok t'' ∧ t.create ⟨file⟩ text.toUTF8 = .ok t'' := by
  obtain ⟨hagain, t'', hnew⟩ := FileTree.create_of_create h text.toUTF8
  exact ⟨t'', by rw [writeOutput, hagain, hnew], hnew⟩

theorem toOption_map (t : FileTree) (p : Path) : (t.map p).toOption = (t.read p).toOption := by
  unfold FileTree.map
  split
  · rename_i h
    rw [h]
    rfl
  · rfl

/-- What is read of a settled file is in the library, or it is a text where the library has an empty file. -/
theorem Settled.toOption_map {outfile : Option String} {l : FontLibrary} {files : FileTree}
    (h : Settled outfile l files) (hl : Prepared outfile l) (f : Path) :
    (files.map f).toOption = (l.files.map f).toOption ∨
      ∃ text : String, l.files.map f = .ok "".toUTF8 ∧ files.map f = .ok text.toUTF8 := by
  cases outfile with
  | none => exact .inl (by rw [show files = l.files from h])
  | some file =>
    obtain ⟨text, -, hcreate⟩ := h
    have hsame := FileTree.sameBut_of_create (hl.empty file rfl) hcreate
    rw [PageLister.toOption_map, PageLister.toOption_map]
    obtain hread | ⟨hread, hread'⟩ := hsame.read f
    · exact .inl hread
    · refine .inr ⟨text, ?_, ?_⟩
      · rw [FileTree.map, hread]
      · rw [FileTree.map, hread']

/-- **What can be read of a settled file is what can be read of it in the library.** -/
theorem Settled.document_eq {outfile : Option String} {l l' : FontLibrary} (h : Settled outfile l l'.files)
    (hl : Prepared outfile l) (hanswer : l'.answer = l.answer) {f : Path} {data : ByteArray}
    (hf : l'.files.map f = .ok data) : (interpretPartial data l').document = partReading l f := by
  obtain hmap | ⟨text, hold, hnew⟩ := h.toOption_map hl f
  · rw [hf] at hmap
    rcases hold : l.files.map f with e | old <;> rw [hold] at hmap <;> cases hmap
    rw [partReading, hold]
    exact (interpretPartial_eq_of_answer hanswer data).2
  · rw [hf] at hnew
    cases hnew
    rw [partReading, hold, (interpretPartial_toUTF8 text l').1]
    exact (interpretPartial_toUTF8 "" l).1.symm

theorem Settled.isOk_map {outfile : Option String} {l : FontLibrary} {files : FileTree} (h : Settled outfile l files)
    (hl : Prepared outfile l) (f : Path) : (files.map f).isOk = (l.files.map f).isOk := by
  obtain hmap | ⟨text, hold, hnew⟩ := h.toOption_map hl f
  · rcases hold : l.files.map f with e | old <;> rcases hnew : files.map f with e' | new <;> rw [hold, hnew] at hmap
    · rfl
    · cases hmap
    · cases hmap
    · rfl
  · rw [hold, hnew]
    rfl

theorem validate_of_isOk_map {t : FileTree} {f : Path} (h : (t.map f).isOk = true) : FileTree.validate f = .ok () := by
  rcases hv : FileTree.validate f with e | u
  · have hread : t.read f = .error e := by
      rw [FileTree.read, FileTree.locate, hv]
      rfl
    rw [FileTree.map, hread] at h
    cases e <;> cases h
  · rfl

/-! ## Runs that show parts -/

theorem exists_listPart_eq (s : Settings) (f : Path) (data : ByteArray) (p : Progress) : ∃ q : Progress,
    listPart s f data p = showDocument s f (interpretPartial data p.library).document q ∧
      q.library = (interpretPartial data p.library).source ∧ q.output = p.output := by
  dsimp only [listPart]
  cases (interpretPartial data p.library).failure with
  | none => exact ⟨_, rfl, rfl, rfl⟩
  | some e => exact ⟨_, rfl, rfl, rfl⟩

/-- A run that began with the library `l` and has shown what can be read of `files`. -/
structure Parted (l : FontLibrary) (s : Settings) (files : List Path) (p : Progress) : Prop where
  answer : p.library.answer = l.answer
  configured : p.library.resolver.IsConfigured
  settled : Settled s.outfile l p.library.files
  output : p.output.text = documentsText s (parts l files)
  opened : ∀ f ∈ files, (l.files.map f).isOk = true

namespace Parted

variable {l : FontLibrary} {s : Settings} {files : List Path} {p : Progress}

theorem start (hl : Prepared s.outfile l) : Parted l s [] { library := l } :=
  ⟨rfl, hl.configured, hl.settled, rfl, nofun⟩

theorem listPart (h : Parted l s files p) (hl : Prepared s.outfile l) {f : Path} {data : ByteArray}
    (hf : p.library.files.map f = .ok data) : Parted l s (files ++ [f]) (listPart s f data p) := by
  have hasked : Asked p.library (interpretPartial data p.library).source := asked_interpretPartial data p.library
  obtain ⟨hanswer, hfiles⟩ := FontLibrary.answer_of_asked hasked
  obtain ⟨q, hpart, hlibrary, houtput⟩ := exists_listPart_eq s f data p
  rw [h.settled.document_eq hl h.answer hf] at hpart
  have hq : (showDocument s f (partReading l f) q).library = (interpretPartial data p.library).source := hlibrary
  rw [hpart]
  exact {
    answer := by rw [hq, hanswer, h.answer]
    configured := by
      rw [hq]
      exact FontLibrary.isConfigured_of_asked hasked h.configured
    settled := by
      rw [hq, hfiles]
      exact h.settled
    output := by
      rw [text_showDocument, houtput, h.output]
      simp [documentsText, parts]
    opened := by
      simp only [List.mem_append, List.mem_singleton]
      rintro g (hg | rfl)
      · exact h.opened g hg
      · rw [← h.settled.isOk_map hl, hf]
        rfl }

/-- **What was shown may go into the output file.** Nobody can read it there. -/
theorem settle (h : Parted l s files p) : Parted l s files (settle s.outfile p) := by
  have hlegible : Legible p.output.text.toList := by
    rw [h.output]
    refine legible_documentsText s fun part hpart => ?_
    obtain ⟨f, hf, rfl⟩ := List.mem_map.1 hpart
    exact validate_of_isOk_map (h.opened f hf)
  rw [Buffered.text, String.toList_append] at hlegible
  have hsettled := h.settled
  unfold PageLister.settle
  cases hout : s.outfile with
  | none => exact h
  | some file =>
    rw [hout] at hsettled
    obtain ⟨text, htext, hcreate⟩ := hsettled
    obtain ⟨files', hwrite, hnew⟩ := exists_writeOutput hcreate p.output.saved
    simp only [hwrite]
    have hsame := FileTree.sameBut_of_create hcreate hnew
    have hanswer := FontLibrary.answer_of_sameBut h.configured hsame (Metrics.ofBytes_toUTF8 htext)
      (Metrics.ofBytes_toUTF8 hlegible.left)
    exact {
      answer := hanswer.trans h.answer
      configured := h.configured
      settled := by
        rw [hout]
        exact ⟨p.output.saved, hlegible.left, hnew⟩
      output := h.output
      opened := h.opened }

end Parted

/-- **All files, up to the first that cannot be opened.** -/
theorem parted_eachData {l : FontLibrary} {s : Settings} (hl : Prepared s.outfile l) (files : List Path)
    {done : List Path} {p : Progress} (h : Parted l s done p) :
    Parted l s (done ++ openable l files) (eachData s.outfile (listPart s) files p).1 := by
  induction files generalizing done p with
  | nil => simpa [openable, eachData] using h
  | cons f files ih =>
    have hisOk := h.settled.isOk_map hl f
    unfold eachData openable
    rw [List.takeWhile_cons]
    rcases hf : p.library.files.map f with e | data <;> rw [hf] at hisOk
    · rw [← hisOk]
      simpa [Except.isOk, Except.toBool] using h
    · rw [← hisOk]
      have hnext := ih (h.listPart hl hf).settle
      simpa [openable, Except.isOk, Except.toBool] using hnext

/-! ## Runs -/

theorem isConfigured_loadMaps {t : FileTree} {names : List String} {m m' : FontMap} {r r' : Resolver}
    (hr : r.IsConfigured) (h : SearchSettings.loadMaps t names (m, r) = .ok (m', r')) : r'.IsConfigured := by
  induction names generalizing m r with
  | nil =>
    cases h
    exact hr
  | cons name names ih =>
    have hload : (FontMap.loadNamed r t name .replace).2.IsConfigured := by
      unfold FontMap.loadNamed
      rcases (MapMode.split? name).getD (.replace, name) with ⟨mode, name'⟩
      dsimp only
      have hfound := hr.find t name' .fontMap
      rw [Resolver.resolve_eq]
      generalize r.find t name' .fontMap = found at hfound ⊢
      obtain ⟨_ | p, r₁⟩ := found <;> exact hfound
    simp only [SearchSettings.loadMaps] at h
    split at h
    · exact ih hload h
    · cases h

theorem isConfigured_library {r : Resolver} {t : FileTree} {maps : List String} {l : FontLibrary}
    (hr : r.IsConfigured) (h : SearchSettings.library r t maps = .ok l) : l.resolver.IsConfigured := by
  unfold SearchSettings.library at h
  split at h
  · cases h
    exact hr
  · rcases hmaps : SearchSettings.loadMaps t maps ({}, r) with e | ⟨map, r'⟩ <;> rw [hmaps] at h <;> cases h
    exact isConfigured_loadMaps hr hmaps

theorem isConfigured_resolver {s : SearchSettings} {around : Surroundings} {r : Resolver}
    (h : s.resolver around = .ok r) : r.IsConfigured := by
  unfold SearchSettings.resolver at h
  rcases hconfig : s.configuration around with e | config <;> rw [hconfig] at h <;> cases h
  exact Resolver.isConfigured_ofConfig around.files config

theorem writeOutput_eq_ok {t t' : FileTree} {file output : String} (h : writeOutput t file output = .ok t') :
    t.create ⟨file⟩ output.toUTF8 = .ok t' := by
  unfold writeOutput at h
  split at h
  · rename_i hcreate
    cases h
    exact hcreate
  · cases h

theorem prepared_of_prepare {s : Settings} {around : Surroundings} {l : FontLibrary}
    (h : prepare s around = .ok l) : Prepared s.outfile l := by
  unfold prepare at h
  rcases hresolver : s.search.resolver around with e | r <;> rw [hresolver] at h
  · cases h
  rcases hlibrary : SearchSettings.library r around.files s.maps with e | l₀
  · simp only [hlibrary, bind, Except.bind] at h
    cases h
  have hconfigured := isConfigured_library (isConfigured_resolver hresolver) hlibrary
  simp only [hlibrary, bind, Except.bind] at h
  split at h
  · rename_i hout
    cases h
    exact ⟨hconfigured, by simp [hout]⟩
  · rename_i file hout
    rcases hwrite : writeOutput l₀.files file "" with e | files <;> rw [hwrite] at h <;> cases h
    have hcreate := writeOutput_eq_ok hwrite
    refine ⟨hconfigured, fun file' hfile => ?_⟩
    rw [hout] at hfile
    cases hfile
    exact (FileTree.create_of_create hcreate _).1.trans hcreate

/-- What a run has printed, to where it prints. -/
def printed (outfile : Option String) (o : Outcome) : Except FileError ByteArray :=
  match outfile with
  | none => .ok o.output.toUTF8
  | some file => o.files.read ⟨file⟩

theorem printed_runWith {around : Surroundings} {s : Settings} {l : FontLibrary} (hl : prepare s around = .ok l)
    {p : Progress} {failure : Option Failure} (hall : listAll s around.workers { library := l } = (p, failure))
    (hsettled : Settled s.outfile l p.library.files) :
    printed s.outfile (runWith around s) = .ok p.output.text.toUTF8 := by
  simp only [runWith, hl, hall]
  cases hout : s.outfile with
  | none => rfl
  | some file =>
    rw [hout] at hsettled
    obtain ⟨text, -, hcreate⟩ := hsettled
    obtain ⟨files', hwrite, hnew⟩ := exists_writeOutput hcreate p.output.text
    simp only [hwrite]
    exact FileTree.read_of_create hnew

theorem printed_wholes {around : Surroundings} {s : Settings} {l : FontLibrary} (hl : prepare s around = .ok l)
    (hpage : s.page = none) (hpartial : s.showPartial = false) (hworkers : startWorkers s around.workers = .ok ()) :
    printed s.outfile (runWith around s) = .ok (documentsText s (wholes l s.files)).toUTF8 := by
  obtain ⟨hlibrary, houtput, -, -⟩ := listed_foldl l s s.files
  have hsettled : Settled s.outfile l (s.files.foldl (listFile s) { library := l }).library.files := by
    rw [(FontLibrary.answer_of_asked hlibrary).2]
    exact (prepared_of_prepare hl).settled
  have hprinted := printed_runWith hl (listAll_of_startWorkers hpage hpartial hworkers _) hsettled
  rw [houtput] at hprinted
  rw [documentsText_wholes]
  exact hprinted

theorem printed_of_noWorkers {around : Surroundings} {s : Settings} {l : FontLibrary} (hl : prepare s around = .ok l)
    (hpage : s.page = none) (hpartial : s.showPartial = false) {f : Failure}
    (hworkers : startWorkers s around.workers = .error f) : printed s.outfile (runWith around s) = .ok "".toUTF8 :=
  printed_runWith hl (listAll_of_noWorkers hpage hpartial hworkers _) (prepared_of_prepare hl).settled

/-- A run that shows parts prints what can be read of the files up to the first that cannot be opened. -/
theorem printed_parts {around : Surroundings} {s : Settings} {l : FontLibrary} (hl : prepare s around = .ok l)
    (hpage : s.page = none) (hpartial : s.showPartial = true) :
    printed s.outfile (runWith around s) = .ok (documentsText s (parts l (openable l s.files))).toUTF8 := by
  have hprepared : Prepared s.outfile l := prepared_of_prepare hl
  have hparted := parted_eachData hprepared s.files (.start hprepared)
  have hall : listAll s around.workers { library := l } = eachData s.outfile (listPart s) s.files { library := l } := by
    simp only [listAll, hpage, hpartial, if_true]
  have hprinted := printed_runWith hl hall hparted.settled
  rw [hparted.output, List.nil_append] at hprinted
  exact hprinted

/-- **A run that shows parts prints what can be read of the files up to the first that cannot be opened**, to the
standard output or into the output file, and nothing else. A run that does not prints the documents of all files that
are whole, or nothing without workers. Those of them that are in front of the first file that cannot be opened are also
among the parts, in the same order. -/
theorem printed_of_partial {arguments arguments' : List String} {s : Settings} {around : Surroundings}
    (hread : usage.read {} arguments = .run { s with page := none, showPartial := false })
    (hread' : usage.read {} arguments' = .run { s with page := none, showPartial := true }) :
    (∀ f, prepare s around = .error f → run arguments' around = run arguments around) ∧
    ∀ l, prepare s around = .ok l →
      (startWorkers s around.workers = .ok () →
        printed s.outfile (run arguments around) = .ok (documentsText s (wholes l s.files)).toUTF8) ∧
      (∀ f, startWorkers s around.workers = .error f → printed s.outfile (run arguments around) = .ok "".toUTF8) ∧
      printed s.outfile (run arguments' around) = .ok (documentsText s (parts l (openable l s.files))).toUTF8 ∧
      (wholes l (openable l s.files)).Sublist (parts l (openable l s.files)) := by
  let whole : Settings := { s with page := none, showPartial := false }
  let parted : Settings := { s with page := none, showPartial := true }
  rw [run_eq_runWith (s := whole) hread, run_eq_runWith (s := parted) hread']
  refine ⟨fun f hf => ?_, fun l hl => ⟨fun hworkers => ?_, fun f hworkers => ?_, ?_, wholes_sublist_parts l _⟩⟩
  · have hprepare : prepare whole around = .error f := hf
    have hprepare' : prepare parted around = .error f := hf
    simp only [runWith, hprepare, hprepare']
  · exact printed_wholes (s := whole) hl rfl rfl hworkers
  · exact printed_of_noWorkers (s := whole) hl rfl rfl hworkers
  · exact printed_parts (s := parted) hl rfl rfl

/-- The two files, and an output file in which nothing was written yet. -/
def wholeAndCutOut : FileTree :=
  { root := .directory [("whole.dvi", .file twoPages), ("cut.dvi", .file twoPagesCut), ("out", .file "".toUTF8)] }

/-- Of the first of three files a part can be read, the second one is whole, and the third one is missing. -/
theorem printed_of_partial_wholeAndCut :
    let arguments := ["-o", "out", "cut.dvi", "whole.dvi", "missing.dvi"]
    let s : Settings := { files := [⟨"cut.dvi"⟩, ⟨"whole.dvi"⟩, ⟨"missing.dvi"⟩], outfile := some "out" }
    let l : FontLibrary := { files := wholeAndCutOut, resolver := (Resolver.ofConfig wholeAndCut {}).1 }
    (wholes l s.files).map Prod.fst = [⟨"whole.dvi"⟩] ∧
    (parts l (openable l s.files)).map Prod.fst = [⟨"cut.dvi"⟩, ⟨"whole.dvi"⟩] ∧
    printed s.outfile (run arguments aroundWholeAndCut) = .ok (documentsText s (wholes l s.files)).toUTF8 ∧
    printed s.outfile (run ("--partial" :: arguments) aroundWholeAndCut) =
      .ok (documentsText s (parts l (openable l s.files))).toUTF8 := by
  intro arguments s l
  have hread : usage.read {} arguments = .run { s with page := none, showPartial := false } := rfl
  have hread' : usage.read {} ("--partial" :: arguments) = .run { s with page := none, showPartial := true } := rfl
  have hl : prepare s aroundWholeAndCut = .ok l := rfl
  have hworkers : startWorkers s aroundWholeAndCut.workers = .ok () := rfl
  obtain ⟨hwhole, -, hpart, -⟩ := (printed_of_partial (s := s) hread hread').2 l hl
  exact ⟨by decide +kernel, by decide +kernel, hwhole hworkers, hpart⟩

/-- **Behind a missing file nothing is printed when parts are shown**, and all is printed when they are not. -/
theorem partial_prints_less_wholeAndCut :
    (run ["missing.dvi", "whole.dvi"] aroundWholeAndCut).output ≠ "" ∧
    (run ["--partial", "missing.dvi", "whole.dvi"] aroundWholeAndCut).output = "" := by
  decide +kernel

end Dvi.Tool.PageLister
