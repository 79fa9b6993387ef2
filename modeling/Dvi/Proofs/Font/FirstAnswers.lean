import Dvi.Proofs.Font.Answers

/-!
# First answers of a font library

A library is asked for metrics, its resolver is asked for paths, and files come and go. The resolver remembers where a
name was found; the library remembers what was read there, and also that there was nothing to read. So the first answer
for a font name depends on what was asked of the resolver before, and all later answers are the first.

* `FontLibrary.Use`: what may happen; `FontLibrary.searches`: what the resolver is asked in the course of it;
* `FontLibrary.loaded_metrics`, `FontLibrary.session_metrics`: what a library remembers after a question;
* **`FontLibrary.session_uses`**: a font name is looked for once, when it is first asked for;
* **`FontLibrary.loaded_uses`**: what is known of a name stays; `FontLibrary.countP_warned_le`: a file that cannot be
  read is reported once;
* `FontLibrary.AgreeOn`: libraries that cannot be told apart by one name; **`FontLibrary.agreeOn_uses_filter`**: what
  happens for other names makes no difference;
* **`FontLibrary.metrics_eq_first_answer`**: all answers, over any history.
-/

namespace Dvi

/-! ## Sessions that agree on a name -/

namespace Resolver.Session

/-- The same files and backends, and the same is remembered of one name. -/
structure AgreeOn (key : ResourceClass × String) (s s' : Session) : Prop where
  scene : s.scene = s'.scene
  remembers : s.remembers = s'.remembers
  remembered : s.remembered key = s'.remembered key

namespace AgreeOn

variable {key : ResourceClass × String} {s s' s'' : Session}

theorem refl (s : Session) : AgreeOn key s s := ⟨rfl, rfl, rfl⟩

theorem trans (h : AgreeOn key s s') (h' : AgreeOn key s' s'') : AgreeOn key s s'' :=
  ⟨h.scene.trans h'.scene, h.remembers.trans h'.remembers, h.remembered.trans h'.remembered⟩

theorem use (h : AgreeOn key s s') (u : Use) : AgreeOn key (s.use u).2 (s'.use u).2 := by
  refine ⟨by rw [scene_use, scene_use, h.scene], by rw [remembers_use, remembers_use, h.remembers], ?_⟩
  rcases hs : s.remembers
  · have hs' : s'.remembers = false := h.remembers ▸ hs
    rw [remembered_of_not_remembers ((s.remembers_use u).trans hs),
      remembered_of_not_remembers ((s'.remembers_use u).trans hs')]
  · have hs' : s'.remembers = true := h.remembers ▸ hs
    rw [s.remembered_use hs, s'.remembered_use hs', h.remembered, h.scene]

theorem of_not_concerns {u : Use} (hu : ¬ u.concerns key = true) : AgreeOn key (s.use u).2 s := by
  have hasks : u.asks? ≠ some key := fun h => hu (by simp [Use.concerns, h])
  refine ⟨by rw [scene_use, s.scene.after_of_not_concerns hu], s.remembers_use u, ?_⟩
  rcases hs : s.remembers
  · rw [remembered_of_not_remembers ((s.remembers_use u).trans hs), remembered_of_not_remembers hs]
  · rw [s.remembered_use hs, if_neg hasks, Option.or_none]

end AgreeOn

end Resolver.Session

namespace FontLibrary

/-! ## Histories -/

/-- What may happen while a library is in use. -/
inductive Use where
  | metrics (name : String)
  | resolve (f : FontDefinition)
  /-- the resolver is asked for something else, or the files are others from now on -/
  | shared (u : Resolver.Use)

namespace Use

/-- The font name whose metrics are asked for. -/
def asks? : Use → Option String
  | .metrics name => some name
  | .resolve f => some f.name
  | .shared _ => none

/-- Whether a use asks for no other metrics than those of a name. -/
def concerns (name : String) : Use → Bool
  | .metrics name' => name' = name
  | .resolve f => f.name = name
  | .shared u => u.concerns (.tfm, name)

/-- What the resolver is asked, if the metrics of some names are known. -/
def lookups (known : List String) : Use → List Resolver.Use
  | .metrics name => if name ∈ known then [] else [.resolve name .tfm]
  | .resolve f => if f.name ∈ known then [] else [.resolve f.name .tfm]
  | .shared u => [u]

end Use

/-- A new library. The files may have changed since its resolver was made. -/
def start (made now : FileTree) (config : SearchConfig) (map : Option FontMap) : FontLibrary where
  files := now
  resolver := (Resolver.ofConfig made config).1
  map := map

/-- The resolver, and the files there are. -/
def session (l : FontLibrary) : Resolver.Session := ⟨l.files, l.resolver⟩

/-- The metrics that are answered, if any are asked for and there are any, with warnings, and the library afterwards. -/
def use (l : FontLibrary) : Use → Option Metrics × List Warning × FontLibrary
  | .metrics name => l.metrics name
  | .resolve f =>
    let (font, warnings, l) := l.resolve f
    (font.metrics, warnings, l)
  | .shared u =>
    let s := (l.session.use u).2
    (none, [], { l with files := s.files, resolver := s.resolver })

/-- The library after one use after the other. -/
def uses (l : FontLibrary) (us : List Use) : FontLibrary := us.foldl (fun l u => (l.use u).2.2) l

/-- All warnings in the course of it. -/
def warned (l : FontLibrary) : List Use → List Warning
  | [] => []
  | u :: us => (l.use u).2.1 ++ (l.use u).2.2.warned us

/-- What the resolver is asked: a font name is looked for when it is first asked for. -/
def searches (known : List String) : List Use → List Resolver.Use
  | [] => []
  | u :: us => u.lookups known ++ searches (u.asks?.toList ++ known) us

/-- The warning that the metrics of a font name cannot be read. -/
def isUnreadable (name : String) : Warning → Bool
  | .unreadableMetrics font _ _ => font = name
  | _ => false

/-! ## One use -/

section Use

variable (l : FontLibrary)

theorem loaded_metrics (name name' : String) : (l.metrics name).2.2.loaded.find? name' =
    if name' = name then some (l.metrics name).1 else l.loaded.find? name' := by
  rw [fst_metrics]
  rcases hl : l.loaded.find? name with _ | answer
  · simp only [metrics, hl, Table.find?_insert, thd_loadMetrics, Option.getD_none]
  · simp only [metrics, hl, Option.getD_some]
    split
    · rename_i hname
      rw [hname, hl]
    · rfl

theorem session_metrics (name : String) : (l.metrics name).2.2.session =
    if (l.loaded.find? name).isSome then l.session else (l.session.use (.resolve name .tfm)).2 := by
  rcases hl : l.loaded.find? name with _ | answer
  · simp only [metrics, hl, session, thd_loadMetrics]
    rw [Resolver.Session.use_of_asks _ rfl]
    rfl
  · simp only [metrics, hl]
    rfl

theorem fst_metrics_eq (name : String) : (l.metrics name).1 = (l.loaded.find? name).getD
    (((l.session.remembered (.tfm, name)).or (l.session.scene.search (.tfm, name))).bind fun p =>
      (Metrics.load l.session.scene.files p).toOption) := by
  rw [fst_metrics, fst_loadMetrics, metricsPath, Resolver.fst_find]
  rfl

theorem use_of_asks {u : Use} {name : String} (hu : u.asks? = some name) :
    (l.use u).1 = (l.metrics name).1 ∧ (l.use u).2.2 = (l.metrics name).2.2 := by
  cases u with
  | metrics | resolve =>
    cases hu
    exact ⟨rfl, rfl⟩
  | shared => cases hu

theorem loaded_use (u : Use) (name : String) : (l.use u).2.2.loaded.find? name =
    if u.asks? = some name then some (l.use u).1 else l.loaded.find? name := by
  rcases hu : u.asks? with _ | asked
  · cases u with
    | metrics | resolve => cases hu
    | shared => rfl
  · obtain ⟨hfst, hthd⟩ := l.use_of_asks hu
    rw [hthd, hfst, loaded_metrics]
    simp only [Option.some.injEq, eq_comm]

theorem session_use (u : Use) {known : List String} (hknown : ∀ name, name ∈ known ↔ (l.loaded.find? name).isSome) :
    (l.use u).2.2.session = l.session.uses (u.lookups known) := by
  have hlookup (name : String) : (l.metrics name).2.2.session =
      l.session.uses (if name ∈ known then [] else [.resolve name .tfm]) := by
    rw [session_metrics]
    simp only [← hknown]
    split <;> rfl
  cases u with
  | metrics name => exact hlookup name
  | resolve f => exact hlookup f.name
  | shared u => rfl

/-- Looking for metrics is reported if there is a file that cannot be read. -/
theorem snd_loadMetrics (name : String) : (l.loadMetrics name).2.1 = [] ∨
    ∃ p e, (l.loadMetrics name).2.1 = [.unreadableMetrics name p e] := by
  rcases hr : l.resolver.resolve l.files name .tfm with ⟨e | p, r⟩
  · left
    simp only [loadMetrics, hr]
  · rcases hload : Metrics.load l.files p with e | m
    · refine .inr ⟨p, e, ?_⟩
      simp only [loadMetrics, hr, hload]
    · left
      simp only [loadMetrics, hr, hload]

theorem countP_checksumWarnings (f : FontDefinition) (m : Option Metrics) (name : String) :
    (checksumWarnings f m).countP (isUnreadable name) = 0 := by
  unfold checksumWarnings
  split
  · split <;> rfl
  · rfl

theorem countP_metrics_le (name name' : String) : (l.metrics name').2.1.countP (isUnreadable name) ≤
    if name' = name ∧ l.loaded.find? name = none then 1 else 0 := by
  rcases hl : l.loaded.find? name' with _ | answer
  · have hsnd : (l.metrics name').2.1 = (l.loadMetrics name').2.1 := by simp only [metrics, hl]
    rw [hsnd]
    obtain h | ⟨p, e, h⟩ := l.snd_loadMetrics name' <;> rw [h]
    · exact Nat.zero_le _
    · by_cases hname : name' = name
      · rw [if_pos ⟨hname, hname ▸ hl⟩]
        exact List.countP_le_length
      · rw [List.countP_singleton, if_neg (by simpa [isUnreadable] using hname)]
        exact Nat.zero_le _
  · simp only [metrics, hl]
    exact Nat.zero_le _

/-- A name is reported only when it is asked for and not known. -/
theorem countP_use_le (u : Use) (name : String) : (l.use u).2.1.countP (isUnreadable name) ≤
    if u.asks? = some name ∧ l.loaded.find? name = none then 1 else 0 := by
  cases u with
  | metrics name' =>
    simp only [Use.asks?, Option.some.injEq]
    exact l.countP_metrics_le name name'
  | resolve f =>
    show ((l.metrics f.name).2.1 ++ checksumWarnings f (l.metrics f.name).1).countP (isUnreadable name) ≤ _
    rw [List.countP_append, countP_checksumWarnings, Nat.add_zero]
    simp only [Use.asks?, Option.some.injEq]
    exact l.countP_metrics_le name f.name
  | shared => exact Nat.zero_le _

end Use

/-! ## Histories of uses -/

section Uses

variable {l : FontLibrary} {name : String}

/-- **The resolver is asked for a font name once, when the name is first asked for.** -/
theorem session_uses (us : List Use) {known : List String}
    (hknown : ∀ name, name ∈ known ↔ (l.loaded.find? name).isSome) :
    (l.uses us).session = l.session.uses (searches known us) := by
  -- The list of known names keeps step with the table: what was asked for has an entry.
  induction us generalizing l known with
  | nil => rfl
  | cons u us ih =>
    have hstep : ∀ name, name ∈ u.asks?.toList ++ known ↔ ((l.use u).2.2.loaded.find? name).isSome := by
      intro name
      rw [loaded_use, List.mem_append, Option.mem_toList, hknown]
      split <;> simp [*]
    rw [searches, Resolver.Session.uses, List.foldl_append]
    refine (ih hstep).trans ?_
    rw [session_use l u hknown]
    rfl

/-- **What is known of a name stays.** -/
theorem loaded_uses {answer : Option Metrics} (h : l.loaded.find? name = some answer) (us : List Use) :
    (l.uses us).loaded.find? name = some answer := by
  induction us generalizing l with
  | nil => exact h
  | cons u us ih =>
    refine ih ?_
    rw [loaded_use]
    split
    · rename_i hu
      rw [(l.use_of_asks hu).1, fst_metrics, h, Option.getD_some]
    · exact h

theorem loaded_uses_eq_none (h : l.loaded.find? name = none) {us : List Use} (hus : ∀ u ∈ us, u.asks? ≠ some name) :
    (l.uses us).loaded.find? name = none := by
  induction us generalizing l with
  | nil => exact h
  | cons u us ih =>
    refine ih ?_ fun v hv => hus v (.tail u hv)
    rw [loaded_use, if_neg (hus u (.head us)), h]

/-- **A file that cannot be read is reported once for each name.** -/
theorem countP_warned_le (l : FontLibrary) (name : String) (us : List Use) :
    (l.warned us).countP (isUnreadable name) ≤ if l.loaded.find? name = none then 1 else 0 := by
  -- Only a name without entry is reported, and it has one afterwards.
  induction us generalizing l with
  | nil => exact Nat.zero_le _
  | cons u us ih =>
    have hnow := l.countP_use_le u name
    have hlater := ih (l.use u).2.2
    rw [loaded_use] at hlater
    rw [warned, List.countP_append]
    by_cases hu : u.asks? = some name
    · rw [if_pos hu, if_neg nofun] at hlater
      simp only [hu, true_and] at hnow
      omega
    · rw [if_neg hu] at hlater
      rw [if_neg fun h => hu h.1] at hnow
      omega

end Uses

/-! ## Libraries that agree on a name -/

/-- Libraries that cannot be told apart by what is asked of one name. -/
structure AgreeOn (name : String) (l l' : FontLibrary) : Prop where
  loaded : l.loaded.find? name = l'.loaded.find? name
  session : l.session.AgreeOn (.tfm, name) l'.session

namespace AgreeOn

variable {name : String} {l l' l'' : FontLibrary}

theorem refl (l : FontLibrary) : AgreeOn name l l := ⟨rfl, .refl _⟩

theorem trans (h : AgreeOn name l l') (h' : AgreeOn name l' l'') : AgreeOn name l l'' :=
  ⟨h.loaded.trans h'.loaded, h.session.trans h'.session⟩

theorem fst_metrics (h : AgreeOn name l l') : (l.metrics name).1 = (l'.metrics name).1 := by
  rw [fst_metrics_eq, fst_metrics_eq, h.loaded, h.session.remembered, h.session.scene]

theorem metrics (h : AgreeOn name l l') : AgreeOn name (l.metrics name).2.2 (l'.metrics name).2.2 := by
  constructor
  · rw [loaded_metrics, loaded_metrics, if_pos rfl, if_pos rfl, h.fst_metrics]
  · rw [session_metrics, session_metrics, h.loaded]
    split
    · exact h.session
    · exact h.session.use _

theorem use (h : AgreeOn name l l') {u : Use} (hu : u.concerns name = true) :
    AgreeOn name (l.use u).2.2 (l'.use u).2.2 := by
  cases u with
  | metrics name' =>
    obtain rfl : name' = name := by simpa [Use.concerns] using hu
    exact h.metrics
  | resolve f =>
    obtain rfl : f.name = name := by simpa [Use.concerns] using hu
    exact h.metrics
  | shared u => exact ⟨h.loaded, h.session.use u⟩

theorem of_not_concerns {u : Use} (hu : ¬ u.concerns name = true) : AgreeOn name (l.use u).2.2 l := by
  have hmetrics {name' : String} (hname : name' ≠ name) : AgreeOn name (l.metrics name').2.2 l := by
    constructor
    · rw [loaded_metrics, if_neg hname.symm]
    · rw [session_metrics]
      split
      · exact .refl _
      · refine .of_not_concerns fun h => hname ?_
        simpa [Resolver.Use.concerns, Resolver.Use.asks?] using h
  cases u with
  | metrics name' => exact hmetrics (by simpa [Use.concerns] using hu)
  | resolve f => exact hmetrics (by simpa [Use.concerns] using hu)
  | shared u => exact ⟨rfl, .of_not_concerns hu⟩

end AgreeOn

/-- **What happens for other names makes no difference.** -/
theorem agreeOn_uses_filter {name : String} {l l' : FontLibrary} (h : AgreeOn name l l') (us : List Use) :
    AgreeOn name (l.uses us) (l'.uses (us.filter (Use.concerns name))) := by
  induction us generalizing l l' with
  | nil => exact h
  | cons u us ih =>
    by_cases hu : u.concerns name = true
    · rw [List.filter_cons_of_pos hu]
      exact ih (h.use hu)
    · rw [List.filter_cons_of_neg hu]
      exact ih ((AgreeOn.of_not_concerns hu).trans h)

/-! ## All answers -/

section Start

variable (made now : FileTree) (config : SearchConfig) (map : Option FontMap)

/-- Whatever happened, a new resolver was asked for what is looked for in the course of it. -/
theorem session_uses_start (us : List Use) : ((start made now config map).uses us).session =
    (Resolver.Session.start made now config).uses (searches [] us) :=
  session_uses us fun _ => by simp [start, Table.find?]

/-- **The metrics of a name are looked for at the first path that was ever found for it; or, if paths are not
remembered, at the one that is there.** -/
theorem metricsPath_uses (us : List Use) (name : String) :
    let scene := (Resolver.Session.start made now config).scene
    ((start made now config map).uses us).metricsPath name =
      if config.cache then Resolver.firstHit? (.tfm, name) scene (searches [] us ++ [.find name .tfm])
      else ((searches [] us).foldl Resolver.Scene.after scene).search (.tfm, name) := by
  intro scene
  have hpath : ((start made now config map).uses us).metricsPath name =
      (((start made now config map).uses us).session.remembered (.tfm, name)).or
        (((start made now config map).uses us).session.scene.search (.tfm, name)) :=
    Resolver.fst_find ..
  rw [hpath, session_uses_start, Resolver.Session.scene_uses]
  rcases hc : config.cache
  · have hforgets := (Resolver.Session.remembers_start made now config).trans hc
    rw [Resolver.Session.remembered_of_not_remembers ((Resolver.Session.remembers_uses _).trans hforgets),
      Option.none_or]
    rfl
  · have hremembers := (Resolver.Session.remembers_start made now config).trans hc
    have hasks : (Resolver.Use.find name .tfm).asks? = some (.tfm, name) := rfl
    rw [Resolver.Session.remembered_uses hremembers, Resolver.Session.remembered_start, Option.none_or, if_pos rfl,
      Resolver.firstHit?_concat, if_pos hasks]

end Start

/-- **The first answer for a font name is what can be read at the path that is answered for it then; all later answers
are the first.** The path is the one remembered, if paths are remembered and there was one when the name was asked for;
a file that cannot be read is reported once for each name; what happens for other names makes no difference. -/
theorem metrics_eq_first_answer (made now : FileTree) (config : SearchConfig) (map : Option FontMap) (name : String)
    (us : List Use) :
    let l := start made now config map
    let scene := (Resolver.Session.start made now config).scene
    (∀ before between u u', us = before ++ u :: between → u.asks? = some name → u'.asks? = some name →
      ((l.uses us).use u').1 = ((l.uses before).use u).1) ∧
    (∀ u, (∀ v ∈ us, v.asks? ≠ some name) → u.asks? = some name →
      ((l.uses us).use u).1 =
        ((l.uses us).metricsPath name).bind fun p => (Metrics.load (l.uses us).files p).toOption) ∧
    (l.uses us).metricsPath name =
      (if config.cache then Resolver.firstHit? (.tfm, name) scene (searches [] us ++ [.find name .tfm])
      else ((searches [] us).foldl Resolver.Scene.after scene).search (.tfm, name)) ∧
    (l.warned us).countP (isUnreadable name) ≤ 1 ∧
    (∀ u, u.asks? = some name →
      ((l.uses us).use u).1 = ((l.uses (us.filter (Use.concerns name))).use u).1) := by
  intro l scene
  refine ⟨?_, ?_, metricsPath_uses made now config map us name, ?_, ?_⟩
  · intro before between u u' hus hu hu'
    have hknown : ((l.uses before).use u).2.2.loaded.find? name = some ((l.uses before).use u).1 := by
      rw [loaded_use, if_pos hu]
    have hafter : l.uses us = ((l.uses before).use u).2.2.uses between := by
      rw [hus, uses, List.foldl_append]
      rfl
    rw [((l.uses us).use_of_asks hu').1, fst_metrics, hafter, loaded_uses hknown, Option.getD_some]
  · intro u hfirst hu
    have hnone : (l.uses us).loaded.find? name = none := loaded_uses_eq_none rfl hfirst
    rw [((l.uses us).use_of_asks hu).1, fst_metrics, hnone, Option.getD_none, fst_loadMetrics]
  · exact (countP_warned_le l name us).trans (by split <;> omega)
  · intro u hu
    rw [((l.uses us).use_of_asks hu).1, ((l.uses _).use_of_asks hu).1]
    exact (agreeOn_uses_filter (.refl l) us).fst_metrics

/-- A metrics file of a font without characters. -/
def emptyFont : ByteArray := ⟨#[0, 11, 0, 2, 0, 1, 0, 0, 0, 1, 0, 1, 0, 1, 0, 0, 0, 0, 0, 0, 0, 0, 0, 0,
  0, 0, 0, 7, 0, 160, 0, 0, 0, 0, 0, 0, 0, 0, 0, 0, 0, 0, 0, 0]⟩

/-- The metrics of a file that is gone are still answered. Those of a file that was found and is gone when they are
first asked for are not, nor later, and this is reported once. -/
theorem metrics_eq_first_answer_goneFile :
    let config := ({} : SearchConfig).addDefault .tfm ⟨"a"⟩
    let there := Resolver.metricsTree [("x.tfm", .file emptyFont)]
    let gone : Use := .shared (.change (Resolver.metricsTree []))
    let back : Use := .shared (.change there)
    let l := start there there config none
    (((l.uses [.metrics "x", gone]).use (.metrics "x")).1.map (·.checksum) = some 7) ∧
    ((l.uses [.shared (.find "x" .tfm), gone, .metrics "x", back]).use (.metrics "x")).1 = none ∧
    ((l.uses [.shared (.find "x" .tfm), gone]).metricsPath "x" = some ⟨"a/x.tfm"⟩) ∧
    (l.warned [.shared (.find "x" .tfm), gone, .metrics "x", back, .metrics "x"]).countP (isUnreadable "x") = 1 := by
  intro config there gone back l
  have hread := metrics_eq_first_answer there there config none "x" [.metrics "x", gone]
  have hgone := metrics_eq_first_answer there there config none "x" [.shared (.find "x" .tfm), gone]
  have hback := metrics_eq_first_answer there there config none "x"
    [.shared (.find "x" .tfm), gone, .metrics "x", back]
  refine ⟨?_, ?_, ?_, ?_⟩
  · rw [hread.1 [] [gone] (.metrics "x") (.metrics "x") rfl rfl rfl]
    decide +kernel
  · rw [hback.1 [.shared (.find "x" .tfm), gone] [back] (.metrics "x") (.metrics "x") rfl rfl rfl]
    decide +kernel
  · rw [hgone.2.2.1]
    decide +kernel
  · decide +kernel

end FontLibrary

end Dvi
