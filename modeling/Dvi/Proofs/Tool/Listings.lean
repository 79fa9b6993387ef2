import Dvi.Proofs.Font.Answers
import Dvi.Tool.PageLister

/-!
# Listing several files

When whole documents are listed, each file is shown or reported as if it were the only one. What the library remembers
from one file to the next cannot be seen.

* `PageLister.reading`: what comes of a file: its document, or the error that there is none;
* `PageLister.Listed`: a run that has shown the documents of some files and reported the other ones.
  **`PageLister.Listed.listFile`**: one file more; `PageLister.listed_foldl`: all files;
* `PageLister.runWith_eq`: the outcome of a run; `PageLister.runWith_of_noWorkers`: that of one that cannot start the
  workers it wants;
* `PageLister.readers`: the files read side by side. `PageLister.results_readers`: whoever takes the next step, the
  same comes of them;
* **`PageLister.run_eq_runs_alone`**: the run on several files puts together the runs on each of them.
-/

namespace Dvi.Tool.PageLister

/-! ## One file -/

/-- What comes of a file: its document, or why there is none. -/
def reading (l : FontLibrary) (file : Path) : Except Error Document :=
  match l.files.map file with
  | .error e => .error (.file e)
  | .ok data => interpret data l

/-- The text that shows a document. -/
def documentText (s : Settings) (file : Path) (d : Document) : String :=
  String.join (if s.json then d.toJson.pieces ++ ["\n"] else file.text :: "\n" :: d.listing s.view)

/-- What is shown of a file. -/
def shown (s : Settings) (file : Path) : Except Error Document → String
  | .ok d => documentText s file d
  | .error _ => ""

/-- What is reported of a file. -/
def reported (file : Path) : Except Error Document → String
  | .ok _ => ""
  | .error e => errorLine file e ++ "\n"

theorem text_showDocument (s : Settings) (file : Path) (d : Document) (p : Progress) :
    (showDocument s file d p).output.text = p.output.text ++ documentText s file d := by
  simp only [showDocument, Progress.write, Buffered.text_writeAll, documentText]

/-- A run that began with the library `l`, has shown the documents of `files` and reported those without. -/
structure Listed (l : FontLibrary) (s : Settings) (files : List Path) (p : Progress) : Prop where
  library : Asked l p.library
  output : p.output.text = String.join (files.map fun f => shown s f (reading l f))
  diagnostics : p.diagnostics = String.join (files.map fun f => reported f (reading l f))
  success : p.success = files.all fun f => (reading l f).isOk

namespace Listed

variable {l : FontLibrary} {s : Settings} {files : List Path} {p : Progress}

theorem start (l : FontLibrary) (s : Settings) : Listed l s [] { library := l } := ⟨.nil, rfl, rfl, rfl⟩

theorem show_ (h : Listed l s files p) {f : Path} {d : Document} (hf : reading l f = .ok d) {l' : FontLibrary}
    (hl' : Asked l l') : Listed l s (files ++ [f]) (showDocument s f d { p with library := l' }) where
  library := hl'
  output := by
    rw [text_showDocument, h.output]
    simp [hf, shown]
  diagnostics := by
    rw [showDocument, Progress.write, h.diagnostics]
    simp [hf, reported]
  success := by
    rw [showDocument, Progress.write, h.success]
    simp [hf, Except.isOk, Except.toBool]

theorem report (h : Listed l s files p) {f : Path} {e : Error} (hf : reading l f = .error e) {l' : FontLibrary}
    (hl' : Asked l l') : Listed l s (files ++ [f]) ({ p with library := l' }.report (errorLine f e)) where
  library := hl'
  output := by
    rw [Progress.report, h.output]
    simp [hf, shown]
  diagnostics := by
    rw [Progress.report, h.diagnostics]
    simp [hf, reported, String.append_assoc]
  success := by
    rw [Progress.report]
    simp [hf, Except.isOk, Except.toBool]

/-- **One file more is shown or reported as it is with a new library.** -/
theorem listFile (h : Listed l s files p) (f : Path) : Listed l s (files ++ [f]) (listFile s p f) := by
  obtain ⟨hanswer, hfiles⟩ := FontLibrary.answer_of_asked h.library
  unfold PageLister.listFile
  rw [hfiles]
  rcases hmap : l.files.map f with e | data
  · exact h.report (by rw [reading, hmap]) h.library
  · obtain ⟨hresult, hdocument⟩ := interpretPartial_eq_of_answer hanswer data
    have hinterpret : reading l f = (interpretPartial data l).complete := by
      rw [reading, hmap]
      rfl
    have hreading : reading l f = (interpretPartial data p.library).complete := by
      rw [hinterpret, Interpretation.complete, Interpretation.complete, hresult, hdocument]
    have hl' : Asked l (interpretPartial data p.library).source :=
      h.library.trans (asked_interpretPartial data p.library)
    dsimp only
    rcases hc : (interpretPartial data p.library).complete with e | d
    · exact h.report (hreading.trans hc) hl'
    · exact h.show_ (hreading.trans hc) hl'

end Listed

/-- **All files are shown or reported one after the other.** -/
theorem listed_foldl (l : FontLibrary) (s : Settings) (files : List Path) :
    Listed l s files (files.foldl (listFile s) { library := l }) := by
  induction files using List.reverseRecOn with
  | nil => exact .start l s
  | append_singleton files f ih =>
    rw [List.foldl_append, List.foldl_cons, List.foldl_nil]
    exact ih.listFile f

/-! ## A run -/

theorem run_eq_runWith {arguments : List String} {s : Settings} (h : usage.read {} arguments = .run s)
    (around : Surroundings) : run arguments around = runWith around s := by
  simp only [run, Outcome.ofRequest, h]

theorem startWorkers_singleton (s : Settings) (f : Path) (w : Workers) :
    startWorkers { s with files := [f] } w = .ok () := rfl

theorem listAll_of_startWorkers {s : Settings} {w : Workers} (hpage : s.page = none) (hpartial : s.showPartial = false)
    (hworkers : startWorkers s w = .ok ()) (p : Progress) : listAll s w p = (s.files.foldl (listFile s) p, none) := by
  simp only [listAll, hpage, hpartial, hworkers, Bool.false_eq_true, if_false]

theorem listAll_of_noWorkers {s : Settings} {w : Workers} (hpage : s.page = none) (hpartial : s.showPartial = false)
    {f : Failure} (hworkers : startWorkers s w = .error f) (p : Progress) : listAll s w p = (p, some f) := by
  simp only [listAll, hpage, hpartial, hworkers, Bool.false_eq_true, if_false]

theorem runWith_eq {around : Surroundings} {s : Settings} {l : FontLibrary} (hl : prepare s around = .ok l)
    (hpage : s.page = none) (hpartial : s.showPartial = false) (hout : s.outfile = none)
    (hworkers : startWorkers s around.workers = .ok ()) :
    runWith around s = {
      exit := exitOf (s.files.all fun f => (reading l f).isOk)
      output := String.join (s.files.map fun f => shown s f (reading l f))
      diagnostics := String.join (s.files.map fun f => reported f (reading l f))
      files := l.files } := by
  obtain ⟨hlibrary, houtput, hdiagnostics, hsuccess⟩ := listed_foldl l s s.files
  have hall := listAll_of_startWorkers hpage hpartial hworkers { library := l }
  simp only [runWith, hl, hall, hout, houtput, hdiagnostics, hsuccess, (FontLibrary.answer_of_asked hlibrary).2]
  simp

/-- **Without the workers that it wants, a run shows nothing** and reports that alone. -/
theorem runWith_of_noWorkers {around : Surroundings} {s : Settings} {l : FontLibrary} (hl : prepare s around = .ok l)
    (hpage : s.page = none) (hpartial : s.showPartial = false) (hout : s.outfile = none) {f : Failure}
    (hworkers : startWorkers s around.workers = .error f) :
    runWith around s = { exit := exitOf false, output := "", diagnostics := f.report, files := l.files } := by
  simp [runWith, hl, listAll_of_noWorkers hpage hpartial hworkers, hout, Buffered.text]

theorem exit_eq_zero_iff {b : Bool} : exitOf b = 0 ↔ b = true := by
  cases b <;> decide

/-! ## Files side by side -/

/-- The reader of a file, before its first step. -/
def reader (l : FontLibrary) (file : Path) : Reader FontLibrary :=
  match l.files.map file with
  | .error e => .done (.error (.file e))
  | .ok data => .reading (.start data l {})

/-- The readers of several files. -/
def readers (l : FontLibrary) (files : List Path) : Pool FontLibrary where
  source := l
  readers := files.map (reader l)

theorem due_readers (l : FontLibrary) (files : List Path) : (readers l files).Due l.answer (files.map (reading l)) where
  source := l.answersByName
  readers := by
    refine List.forall₂_map_left_iff.2 (List.forall₂_map_right_iff.2 (List.forall₂_same.2 fun f _ => ?_))
    unfold reader reading
    cases l.files.map f with
    | error e => exact .done _
    | ok data => exact .reading l.answersByName

/-- **Readers that take turns, in whatever way, come to what each file gives alone.** -/
theorem results_readers {l : FontLibrary} {files : List Path} {schedule : List Nat}
    {results : List (Except Error Document)} (h : ((readers l files).steps schedule).results? = some results) :
    results = files.map (reading l) :=
  (Pool.due_steps (due_readers l files) schedule).results?_eq h

/-! ## Several files -/

/-- **The run on several files puts together the runs on each of them**: what is shown, what is reported, and whether
all is well. The command lines may be written in any way that says so, and name any number of workers that can be started.
However they take turns, the files are read once each of them has had its steps, and the same is shown and reported of
them. -/
theorem run_eq_runs_alone {arguments : List String} {s : Settings} {alone : Path → List String}
    {around : Surroundings} {l : FontLibrary} (hread : usage.read {} arguments = .run s)
    (halone : ∀ f ∈ s.files, usage.read {} (alone f) = .run { s with files := [f] }) (hl : prepare s around = .ok l)
    (hpage : s.page = none) (hpartial : s.showPartial = false) (hout : s.outfile = none)
    (hworkers : startWorkers s around.workers = .ok ()) :
    (run arguments around).output = String.join (s.files.map fun f => (run (alone f) around).output) ∧
    (run arguments around).diagnostics = String.join (s.files.map fun f => (run (alone f) around).diagnostics) ∧
    ((run arguments around).exit = 0 ↔ ∀ f ∈ s.files, (run (alone f) around).exit = 0) ∧
    (∀ schedule : List Nat, (∀ k, (readers l s.files).size k ≤ schedule.count k) →
      ∃ results, ((readers l s.files).steps schedule).results? = some results) ∧
    ∀ schedule results, ((readers l s.files).steps schedule).results? = some results →
      (run arguments around).output = String.join (s.files.zipWith (shown s) results) ∧
      (run arguments around).diagnostics = String.join (s.files.zipWith reported results) := by
  have hruns : ∀ f ∈ s.files, run (alone f) around = runWith around { s with files := [f] } := fun f hf =>
    run_eq_runWith (halone f hf) around
  have hone : ∀ f, runWith around { s with files := [f] } = _ := fun f =>
    runWith_eq (s := { s with files := [f] }) hl hpage hpartial hout (startWorkers_singleton s f around.workers)
  rw [run_eq_runWith hread, runWith_eq hl hpage hpartial hout hworkers]
  refine ⟨congrArg String.join (List.map_congr_left fun f hf => ?_),
    congrArg String.join (List.map_congr_left fun f hf => ?_), ?_, fun schedule h => Pool.exists_results? h,
    fun schedule results hresults => ?_⟩
  · rw [hruns f hf, hone]
    simp [shown, documentText]
  · rw [hruns f hf, hone]
    simp
  · rw [exit_eq_zero_iff, List.all_eq_true]
    refine forall₂_congr fun f hf => ?_
    rw [hruns f hf, hone, exit_eq_zero_iff]
    simp
  · rw [results_readers hresults, List.zipWith_map_right, List.zipWith_map_right, List.zipWith_self, List.zipWith_self]
    exact ⟨rfl, rfl⟩

/-- Two files, of which one is cut off. -/
def wholeAndCut : FileTree :=
  { root := .directory [("whole.dvi", .file twoPages), ("cut.dvi", .file twoPagesCut)] }

/-- No variable is set, and there are four workers. -/
def aroundWholeAndCut : Surroundings where
  environment _ := none
  files := wholeAndCut
  workers := {
    available := some 4
    start n := if n ≤ 4 then .ok () else .error "Resource temporarily unavailable (os error 11)" }

/-- A file that can be shown stands between one that is cut off and one that is missing. It is shown as it is alone,
also by two readers that take turns. -/
theorem run_eq_runs_alone_wholeAndCut :
    let arguments := ["-t", "2", "cut.dvi", "whole.dvi", "missing.dvi"]
    let alone (f : Path) := ["-t", "2", f.text]
    let s : Settings := { files := [⟨"cut.dvi"⟩, ⟨"whole.dvi"⟩, ⟨"missing.dvi"⟩], workers := some 2 }
    let l : FontLibrary := { files := wholeAndCut, resolver := (Resolver.ofConfig wholeAndCut {}).1 }
    let turns := (List.replicate 20 [0, 1]).flatten
    startWorkers s aroundWholeAndCut.workers = .ok () ∧
    (run arguments aroundWholeAndCut).output = (run (alone ⟨"whole.dvi"⟩) aroundWholeAndCut).output ∧
    (run arguments aroundWholeAndCut).exit ≠ 0 ∧
    ∃ results, ((readers l s.files).steps turns).results? = some results ∧
      (run arguments aroundWholeAndCut).output = String.join (s.files.zipWith (shown s) results) := by
  intro arguments alone s l turns
  have hread : usage.read {} arguments = .run s := rfl
  have halone : ∀ f ∈ s.files, usage.read {} (alone f) = .run { s with files := [f] } := by
    simp only [s, List.forall_mem_cons]
    exact ⟨rfl, rfl, rfl, nofun⟩
  have hl : prepare s aroundWholeAndCut = .ok l := rfl
  have hworkers : startWorkers s aroundWholeAndCut.workers = .ok () := rfl
  obtain ⟨houtput, -, hexit, -, hturns⟩ := run_eq_runs_alone hread halone hl rfl rfl rfl hworkers
  have hcut : (run (alone ⟨"cut.dvi"⟩) aroundWholeAndCut).output = "" := by decide +kernel
  have hmissing : (run (alone ⟨"missing.dvi"⟩) aroundWholeAndCut).output = "" ∧
      (run (alone ⟨"missing.dvi"⟩) aroundWholeAndCut).exit = 1 := by decide +kernel
  have hdone : ((readers l s.files).steps turns).results?.isSome = true := by decide +kernel
  obtain ⟨results, hresults⟩ := Option.isSome_iff_exists.1 hdone
  refine ⟨hworkers, ?_, fun h => ?_, results, hresults, (hturns turns results hresults).1⟩
  · rw [houtput]
    simp [s, hcut, hmissing.1]
  · have hzero := hexit.1 h ⟨"missing.dvi"⟩ (by simp [s])
    rw [hmissing.2] at hzero
    cases hzero

/-- Five workers are one too many. -/
example : (run ["-t", "5", "whole.dvi", "whole.dvi"] aroundWholeAndCut).output = "" ∧
    (run ["-t", "5", "whole.dvi", "whole.dvi"] aroundWholeAndCut).diagnostics =
      "Error: io error: Resource temporarily unavailable (os error 11)\n\nCaused by:\n" ++
        "    Resource temporarily unavailable (os error 11)\n" := by
  decide +kernel

end Dvi.Tool.PageLister
