import Dvi.Font.Library
import Dvi.Proofs.File.Writing
import Dvi.Proofs.Machine.Sharing
import Dvi.Proofs.Search.Remembered

/-!
# What a font library answers

A library remembers the paths and the metrics that it has found. While the files stay as they are, nobody can tell: it
answers each font name as it would have done at first.

* `Resolver.find_of_sameBut`: what is in files does not change what is found;
* `FontLibrary.answer`: what a library knows of a font name;
  **`FontLibrary.answer_of_asked`**: it is the same whatever the library was asked before;
* **`interpretPartial_eq_of_answer`**: so a stream is read with a library in use as with a new one.
-/

namespace Dvi

/-! ## Resolvers -/

section Contents

variable {t t' : FileTree} {content content' : ByteArray} (h : t.SameBut content content' t')

include h

theorem FileTree.search_of_sameBut (candidates : List String) (dir : SearchDir) :
    t'.search candidates dir = t.search candidates dir := by
  have hfile : t'.isFile = t.isFile := funext h.isFile
  have hin : ∀ p, t'.findIn candidates p = t.findIn candidates p := fun p => by rw [findIn, findIn, hfile]
  have hbelow : ∀ depth p, t'.findBelow candidates depth p = t.findBelow candidates depth p := by
    intro depth
    induction depth with
    | zero => exact hin
    | succ depth ih =>
      intro p
      rw [findBelow, findBelow, hin, h.subdirectories, funext ih]
  rw [search, search, hin, hbelow]

namespace Resolver

/-- What is in the files does not matter to the search for them. -/
theorem find_of_sameBut {r : Resolver} (hr : r.IsConfigured) (name : String) (c : ResourceClass) :
    r.find t' name c = r.find t name c := by
  have hsearch : r.search t' name c = r.search t name c := by
    unfold Resolver.search
    rw [← List.head?_filterMap, ← List.head?_filterMap]
    refine congrArg List.head? (List.filterMap_congr fun b hb => ?_)
    cases b with
    | directories s =>
      have hdirs : t'.search (c.candidates name) = t.search (c.candidates name) :=
        funext (FileTree.search_of_sameBut h _)
      simp only [SearchBackend.find, DirectorySearch.find, hdirs]
    | database => rfl
    | custom label find => exact absurd rfl (hr _ hb label find)
  rw [Resolver.find, Resolver.find, hsearch]

end Resolver

end Contents

/-! ## Libraries -/

namespace FontLibrary

variable (l : FontLibrary)

/-- What the library knows of a font name. -/
def answer (name : String) : ResolvedFont where
  metrics := (l.metrics name).1
  record := l.map.bind (·.get? name)

theorem fst_resolve (f : FontDefinition) : (FontSource.resolve l f).1 = l.answer f.name := rfl

/-- The path at which the metrics of a name are found. -/
def metricsPath (name : String) : Option Path := (l.resolver.find l.files name .tfm).1

theorem fst_loadMetrics (name : String) :
    (l.loadMetrics name).1 = (l.metricsPath name).bind fun p => (Metrics.load l.files p).toOption := by
  unfold loadMetrics metricsPath
  rw [Resolver.resolve_eq]
  rcases (l.resolver.find l.files name .tfm).1 with _ | p
  · rfl
  · simp only [Option.elim, Option.bind]
    cases Metrics.load l.files p <;> rfl

theorem thd_loadMetrics (name : String) :
    (l.loadMetrics name).2.2 = { l with resolver := (l.resolver.find l.files name .tfm).2 } := by
  unfold loadMetrics
  rw [Resolver.resolve_eq]
  rcases (l.resolver.find l.files name .tfm).1 with _ | p
  · rfl
  · simp only [Option.elim]
    cases Metrics.load l.files p <;> rfl

theorem fst_metrics (name : String) :
    (l.metrics name).1 = (l.loaded.find? name).getD (l.loadMetrics name).1 := by
  unfold metrics
  cases l.loaded.find? name <;> rfl

theorem thd_metrics_cases (name : String) : (l.metrics name).2.2 = l ∨
    l.loaded.find? name = none ∧ (l.metrics name).2.2 = { l with
      resolver := (l.resolver.find l.files name .tfm).2
      loaded := l.loaded.insert name (l.loadMetrics name).1 } := by
  rcases hl : l.loaded.find? name with _ | m
  · refine .inr ⟨rfl, ?_⟩
    have hthd : (l.metrics name).2.2 =
        { (l.loadMetrics name).2.2 with
          loaded := (l.loadMetrics name).2.2.loaded.insert name (l.loadMetrics name).1 } := by
      simp only [metrics, hl]
    rw [hthd, thd_loadMetrics]
  · left
    simp only [metrics, hl]

/-- Having been asked for one font, a library answers for all as before. -/
theorem answer_resolve (f : FontDefinition) : (FontSource.resolve l f).2.2.answer = l.answer := by
  funext name
  have hsource : (FontSource.resolve l f).2.2 = (l.metrics f.name).2.2 := rfl
  rw [hsource]
  obtain h | ⟨hnone, h⟩ := l.thd_metrics_cases f.name <;> rw [h]
  simp only [answer, fst_metrics, fst_loadMetrics, metricsPath, Resolver.fst_find_find, Table.find?_insert]
  congr 1
  split
  · rename_i hname
    rw [hname, hnone]
    rfl
  · rfl

theorem files_resolve (f : FontDefinition) : (FontSource.resolve l f).2.2.files = l.files := by
  have hsource : (FontSource.resolve l f).2.2 = (l.metrics f.name).2.2 := rfl
  obtain h | ⟨-, h⟩ := l.thd_metrics_cases f.name <;> rw [hsource, h]

variable {l} in
/-- **A library answers the same if other files differ in what are no metrics.** -/
theorem answer_of_sameBut (hl : l.resolver.IsConfigured) {files : FileTree} {content content' : ByteArray}
    (hfiles : l.files.SameBut content content' files) (h : ∀ name, ∃ d, Metrics.ofBytes name content = .error d)
    (h' : ∀ name, ∃ d, Metrics.ofBytes name content' = .error d) : answer { l with files } = l.answer := by
  have hload : ∀ p, (Metrics.load files p).toOption = (Metrics.load l.files p).toOption := by
    intro p
    unfold Metrics.load
    obtain hread | ⟨hread, hread'⟩ := hfiles.read p
    · rcases hold : l.files.read p with e | data <;> rcases hnew : files.read p with e' | data' <;>
        rw [hold, hnew] at hread
      · rfl
      · cases hread
      · cases hread
      · cases hread
        rfl
    · obtain ⟨d, hd⟩ := h (p.fileStem.getD "")
      obtain ⟨d', hd'⟩ := h' (p.fileStem.getD "")
      simp only [hread, hread', hd, hd']
      rfl
  funext name
  simp only [answer, fst_metrics, fst_loadMetrics, metricsPath, Resolver.find_of_sameBut hfiles hl, hload]

variable {l} {l' : FontLibrary}

/-- **A library answers as it would have done at first, whatever it was asked since.** -/
theorem answer_of_asked (h : Asked l l') : l'.answer = l.answer ∧ l'.files = l.files := by
  induction h with
  | nil => exact ⟨rfl, rfl⟩
  | @snoc s _ f ih => exact ⟨(s.answer_resolve f).trans ih.1, (s.files_resolve f).trans ih.2⟩

theorem isConfigured_of_asked (h : Asked l l') (hl : l.resolver.IsConfigured) : l'.resolver.IsConfigured := by
  induction h with
  | nil => exact hl
  | @snoc s _ f ih =>
    have hsource : (FontSource.resolve s f).2.2 = (s.metrics f.name).2.2 := rfl
    obtain h | ⟨-, h⟩ := s.thd_metrics_cases f.name <;> rw [hsource, h]
    · exact ih
    · exact ih.find s.files f.name .tfm

variable (l) in
theorem answersByName : AnswersByName l l.answer := by
  intro s hs f
  rw [fst_resolve, (answer_of_asked hs).1]

end FontLibrary

/-- **A stream is read with a library in use as it is with a new one.** -/
theorem interpretPartial_eq_of_answer {l l' : FontLibrary} (h : l'.answer = l.answer) (data : ByteArray) :
    (interpretPartial data l').result = (interpretPartial data l).result ∧
      (interpretPartial data l').document = (interpretPartial data l).document := by
  have hs' : AnswersByName l' l.answer := h ▸ l'.answersByName
  exact interpretPartial_eq_of_answersAlike (l.answersByName.alike hs') data

end Dvi
