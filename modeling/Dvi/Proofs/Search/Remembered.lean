import Dvi.Proofs.Tables
import Dvi.Search.Resolver
import Mathlib.Data.List.Dedup

/-!
# What a resolver remembers

While a resolver is in use, files come and go and backends are added. A resolver that remembers gives for a name
the first path that was ever found for it, and otherwise answers by what is there now.

* `Resolver.Session`: a resolver and the files there are; `Resolver.Use`: what may happen to them;
* `Resolver.Scene`, `Resolver.firstHit?`: the same with nothing remembered, and the first path that the backends
  give for a name when it is asked for;
* `Resolver.fst_find_find`: what was found for one name does not change what is found for others;
* `Resolver.IsConfigured`: resolvers of which all backends are directories and databases;
* **`Resolver.Session.remembered_use`**, **`Resolver.Session.remembered_uses`**: what is remembered of a name after
  one use and after many;
* `Resolver.Session.cachedCount_uses`: how much is remembered;
* **`Resolver.remembers_first_hits`**: all answers, over any history.
-/

namespace Dvi

namespace Resolver

/-! ## Histories -/

/-- What may happen while a resolver is in use. -/
inductive Use where
  | find (name : String) (c : ResourceClass)
  | resolve (name : String) (c : ResourceClass)
  /-- a backend is added -/
  | push (b : SearchBackend)
  /-- the files are others from now on -/
  | change (t : FileTree)

/-- What is answered, if anything was asked. -/
inductive Answer where
  | nothing
  | found (p : Option Path)
  | resolved (r : Except Error Path)

/-- The answer is a path. -/
def Answer.isPath : Answer → Bool
  | .found (some _) | .resolved (.ok _) => true
  | _ => false

namespace Use

/-- The class and the name that are asked for. -/
def asks? : Use → Option (ResourceClass × String)
  | .find name c | .resolve name c => some (c, name)
  | .push _ | .change _ => none

/-- How the path of what is asked for, or that there is none, is put into an answer. -/
def answer (p : Option Path) : Use → Answer
  | .find _ _ => .found p
  | .resolve name c => .resolved (p.elim (.error (.notFound name c)) .ok)
  | .push _ | .change _ => .nothing

/-- Whether a use asks for nothing else than a name. -/
def concerns (key : ResourceClass × String) (u : Use) : Bool := u.asks?.all (· = key)

theorem isPath_answer {u : Use} {key : ResourceClass × String} (hu : u.asks? = some key) (p : Option Path) :
    (u.answer p).isPath = p.isSome := by
  cases u <;> cases hu <;> cases p <;> rfl

end Use

/-- A resolver in use, and the files there are. -/
structure Session where
  files : FileTree
  resolver : Resolver

namespace Session

/-- A new resolver. The files may have changed since it was made. -/
def start (made now : FileTree) (config : SearchConfig) : Session := ⟨now, (Resolver.ofConfig made config).1⟩

/-- One use, with its answer. Files change behind the back of the resolver. -/
def use (s : Session) : Use → Answer × Session
  | .find name c =>
    let (p, resolver) := s.resolver.find s.files name c
    (.found p, { s with resolver })
  | .resolve name c =>
    let (r, resolver) := s.resolver.resolve s.files name c
    (.resolved r, { s with resolver })
  | .push b => (.nothing, { s with resolver := s.resolver.push b })
  | .change files => (.nothing, { s with files })

/-- The session after one use after the other. -/
def uses (s : Session) (us : List Use) : Session := us.foldl (fun s u => (s.use u).2) s

/-- What was asked for and answered with a path. -/
def answered (s : Session) : List Use → List (ResourceClass × String)
  | [] => []
  | u :: us => (u.asks?.filter fun _ => (s.use u).1.isPath).toList ++ (s.use u).2.answered us

end Session

/-! ## Without memory -/

/-- The files and the backends there are. -/
structure Scene where
  files : FileTree
  backends : List SearchBackend

namespace Scene

/-- The scene after one use. Questions leave it as it is. -/
def after (w : Scene) : Use → Scene
  | .push b => { w with backends := w.backends ++ [b] }
  | .change files => { w with files }
  | .find .. | .resolve .. => w

/-- The path that the backends give now. -/
def search (w : Scene) (key : ResourceClass × String) : Option Path :=
  w.backends.findSome? fun b => b.find w.files key.1 (key.1.candidates key.2)

theorem after_of_not_concerns (w : Scene) {u : Use} {key : ResourceClass × String} (hu : ¬ u.concerns key = true) :
    w.after u = w := by
  cases u with
  | find | resolve => rfl
  | push | change => exact absurd rfl hu

end Scene

/-- The first path that there was for a name when it was asked for. -/
def firstHit? (key : ResourceClass × String) (w : Scene) : List Use → Option Path
  | [] => none
  | u :: us => (if u.asks? = some key then w.search key else none).or (firstHit? key (w.after u) us)

theorem firstHit?_concat (key : ResourceClass × String) (w : Scene) (us : List Use) (u : Use) :
    firstHit? key w (us ++ [u]) =
      (firstHit? key w us).or (if u.asks? = some key then (us.foldl Scene.after w).search key else none) := by
  induction us generalizing w with
  | nil => simp [firstHit?]
  | cons v us ih => rw [List.cons_append, firstHit?, firstHit?, ih, Option.or_assoc, List.foldl_cons]

theorem firstHit?_filter (key : ResourceClass × String) (w : Scene) (us : List Use) :
    firstHit? key w (us.filter (Use.concerns key)) = firstHit? key w us := by
  induction us generalizing w with
  | nil => rfl
  | cons u us ih =>
    by_cases hu : u.concerns key = true
    · rw [List.filter_cons_of_pos hu, firstHit?, firstHit?, ih]
    · have hne : u.asks? ≠ some key := fun h => hu (by simp [Use.concerns, h])
      rw [List.filter_cons_of_neg hu, ih, firstHit?, if_neg hne, Option.none_or, w.after_of_not_concerns hu]

theorem Scene.search_after (w : Scene) {u : Use} (hu : ∀ files, u ≠ .change files) {key : ResourceClass × String}
    {p : Path} (hp : w.search key = some p) : (w.after u).search key = some p := by
  cases u with
  | find | resolve => exact hp
  | push b =>
    rw [search] at hp
    rw [search, after, List.findSome?_append, hp, Option.some_or]
  | change files => exact absurd rfl (hu files)

theorem Scene.search_foldl_after (w : Scene) {us : List Use} (hus : ∀ files, .change files ∉ us)
    {key : ResourceClass × String} {p : Path} (hp : w.search key = some p) :
    (us.foldl after w).search key = some p := by
  induction us generalizing w with
  | nil => exact hp
  | cons u us ih =>
    have hu : ∀ files, u ≠ .change files := fun files h => hus files (h ▸ .head us)
    exact ih (w.after u) (fun files h => hus files (.tail u h)) (w.search_after hu hp)

/-- While the files stay as they are, what was found first is what is found now. -/
theorem firstHit?_or_search (key : ResourceClass × String) (w : Scene) {us : List Use}
    (hus : ∀ files, .change files ∉ us) :
    (firstHit? key w us).or ((us.foldl Scene.after w).search key) = (us.foldl Scene.after w).search key := by
  induction us generalizing w with
  | nil => rfl
  | cons u us ih =>
    rw [firstHit?, Option.or_assoc, List.foldl_cons, ih (w.after u) fun files h => hus files (.tail u h)]
    split
    · rcases hp : w.search key with _ | p
      · rfl
      · have hlater := w.search_foldl_after hus hp
        rw [List.foldl_cons] at hlater
        rw [hlater, Option.some_or]
    · rfl

/-! ## What is remembered -/

section Find

variable (r : Resolver) (t : FileTree) (name : String) (c : ResourceClass)

theorem find_cases : (∃ p, r.cached? name c = some p ∧ r.find t name c = (some p, r)) ∨
    (r.cached? name c = none ∧ r.search t name c = none ∧ r.find t name c = (none, r)) ∨
    ∃ p, r.cached? name c = none ∧ r.search t name c = some p ∧ r.find t name c = (some p, r.remember name c p) := by
  unfold find
  rcases r.cached? name c with _ | p
  · rcases r.search t name c with _ | p
    · exact .inr (.inl ⟨rfl, rfl, rfl⟩)
    · exact .inr (.inr ⟨p, rfl, rfl, rfl⟩)
  · exact .inl ⟨p, rfl, rfl⟩

theorem resolve_eq : r.resolve t name c =
    ((r.find t name c).1.elim (.error (.notFound name c)) .ok, (r.find t name c).2) := by
  unfold resolve
  rcases r.find t name c with ⟨_ | p, r'⟩ <;> rfl

theorem fst_find : (r.find t name c).1 = (r.cached? name c).or (r.search t name c) := by
  obtain ⟨p, hp, h⟩ | ⟨hnone, hp, h⟩ | ⟨p, hnone, hp, h⟩ := r.find_cases t name c
  · rw [h, hp, Option.some_or]
  · rw [h, hnone, hp, Option.none_or]
  · rw [h, hnone, hp, Option.none_or]

theorem backends_find : (r.find t name c).2.backends = r.backends := by
  obtain ⟨p, -, h⟩ | ⟨-, -, h⟩ | ⟨p, -, -, h⟩ := r.find_cases t name c <;> rw [h]
  rfl

theorem isSome_cache_find : (r.find t name c).2.cache.isSome = r.cache.isSome := by
  obtain ⟨p, -, h⟩ | ⟨-, -, h⟩ | ⟨p, -, -, h⟩ := r.find_cases t name c <;> rw [h]
  exact Option.isSome_map

theorem cached?_remember (hr : r.cache.isSome = true) (p : Path) (key : ResourceClass × String) :
    (r.remember name c p).cached? key.2 key.1 = if key = (c, name) then some p else r.cached? key.2 key.1 := by
  obtain ⟨cache, hcache⟩ := Option.isSome_iff_exists.1 hr
  simp only [remember, cached?, hcache, Option.map_some, Option.bind_some, Table.find?_insert]

theorem cached?_find (hr : r.cache.isSome = true) (key : ResourceClass × String) :
    (r.find t name c).2.cached? key.2 key.1 =
      (r.cached? key.2 key.1).or (if (c, name) = key then r.search t name c else none) := by
  by_cases hkey : (c, name) = key
  · subst hkey
    rw [if_pos rfl]
    obtain ⟨p, hp, h⟩ | ⟨hnone, hp, h⟩ | ⟨p, hnone, hp, h⟩ := r.find_cases t name c
    · rw [h, hp, Option.some_or]
    · rw [h, hnone, hp, Option.none_or]
    · rw [h, hnone, hp, r.cached?_remember name c hr, if_pos rfl, Option.none_or]
  · rw [if_neg hkey, Option.or_none]
    obtain ⟨p, -, h⟩ | ⟨-, -, h⟩ | ⟨p, -, -, h⟩ := r.find_cases t name c <;> rw [h]
    rw [r.cached?_remember name c hr, if_neg (Ne.symm hkey)]

end Find

/-- What was found for one name, remembered or not, does not change what is found for any. -/
theorem fst_find_find (r : Resolver) (t : FileTree) (name : String) (c : ResourceClass) (name' : String)
    (c' : ResourceClass) : ((r.find t name c).2.find t name' c').1 = (r.find t name' c').1 := by
  obtain ⟨p, -, h⟩ | ⟨-, -, h⟩ | ⟨p, hnone, hp, h⟩ := r.find_cases t name c
  · rw [h]
  · rw [h]
  · have hsearch : (r.remember name c p).search t name' c' = r.search t name' c' := rfl
    rw [h, fst_find, fst_find, hsearch]
    rcases hr : r.cache with _ | cache
    · simp only [cached?, remember, hr, Option.map_none, Option.bind_none]
    · have hcached := r.cached?_remember name c (by rw [hr]; rfl) p (c', name')
      rw [hcached]
      split
      · rename_i hkey
        obtain ⟨rfl, rfl⟩ := Prod.mk.inj hkey
        rw [hnone, hp]
        rfl
      · rfl

/-- All backends are those that a configuration names. -/
def IsConfigured (r : Resolver) : Prop := ∀ b ∈ r.backends, ∀ label find, b ≠ .custom label find

theorem isConfigured_ofConfig (t : FileTree) (config : SearchConfig) : (ofConfig t config).1.IsConfigured := by
  rintro b hb label find rfl
  simp only [ofConfig, List.mem_append, List.mem_map, List.mem_flatMap] at hb
  obtain ⟨_, -, hb⟩ | ⟨_, ⟨p, -, rfl⟩, hb⟩ := hb
  · cases hb
  · unfold loadDatabase at hb
    split at hb <;> simp at hb

theorem IsConfigured.find {r : Resolver} (hr : r.IsConfigured) (t : FileTree) (name : String) (c : ResourceClass) :
    (r.find t name c).2.IsConfigured := by
  rw [IsConfigured, backends_find]
  exact hr

namespace Session

variable (s : Session)

/-- What is there, but for what is remembered. -/
def scene : Scene := ⟨s.files, s.resolver.backends⟩

/-- The path that is remembered of a name. -/
def remembered (key : ResourceClass × String) : Option Path := s.resolver.cached? key.2 key.1

/-- Paths are remembered at all. -/
def remembers : Bool := s.resolver.cache.isSome

theorem use_of_asks {u : Use} {key : ResourceClass × String} (hu : u.asks? = some key) :
    s.use u = (u.answer (s.resolver.find s.files key.2 key.1).1,
      { s with resolver := (s.resolver.find s.files key.2 key.1).2 }) := by
  cases u with
  | find => cases hu; rfl
  | resolve =>
    cases hu
    simp only [use, resolve_eq]
    rfl
  | push | change => cases hu

/-- A name is answered by what is remembered of it, or else by what is there. -/
theorem answer_use {u : Use} {key : ResourceClass × String} (hu : u.asks? = some key) :
    (s.use u).1 = u.answer ((s.remembered key).or (s.scene.search key)) := by
  rw [s.use_of_asks hu, fst_find]
  rfl

theorem scene_use (u : Use) : (s.use u).2.scene = s.scene.after u := by
  cases u with
  | find | resolve =>
    rw [s.use_of_asks rfl, scene, backends_find]
    rfl
  | push | change => rfl

theorem remembers_use (u : Use) : (s.use u).2.remembers = s.remembers := by
  cases u with
  | find | resolve =>
    rw [s.use_of_asks rfl]
    exact isSome_cache_find ..
  | push | change => rfl

/-- **A use adds to what is remembered of a name what is found for it, if it is asked for and nothing was found
before.** -/
theorem remembered_use (hs : s.remembers = true) (u : Use) (key : ResourceClass × String) :
    (s.use u).2.remembered key =
      (s.remembered key).or (if u.asks? = some key then s.scene.search key else none) := by
  rcases hu : u.asks? with _ | asked
  · rw [if_neg nofun, Option.or_none]
    cases u with
    | find | resolve => cases hu
    | push | change => rfl
  · rw [s.use_of_asks hu]
    refine (s.resolver.cached?_find s.files asked.2 asked.1 hs key).trans (congrArg _ ?_)
    by_cases hkey : asked = key
    · rw [if_pos hkey, if_pos (congrArg some hkey), ← hkey]
      rfl
    · rw [if_neg hkey, if_neg fun h => hkey (Option.some.inj h)]

variable {s}

theorem remembers_uses (us : List Use) : (s.uses us).remembers = s.remembers := by
  induction us generalizing s with
  | nil => rfl
  | cons u us ih => exact ih.trans (s.remembers_use u)

theorem scene_uses (us : List Use) : (s.uses us).scene = us.foldl Scene.after s.scene := by
  induction us generalizing s with
  | nil => rfl
  | cons u us ih => exact ih.trans (by rw [scene_use, List.foldl_cons])

/-- **Of a name, the first path is remembered that there was when it was asked for.** -/
theorem remembered_uses (hs : s.remembers = true) (us : List Use) (key : ResourceClass × String) :
    (s.uses us).remembered key = (s.remembered key).or (firstHit? key s.scene us) := by
  induction us generalizing s with
  | nil => exact Option.or_none.symm
  | cons u us ih =>
    have hu : (s.use u).2.remembers = true := (s.remembers_use u).trans hs
    refine (ih hu).trans ?_
    rw [s.remembered_use hs, scene_use, firstHit?, Option.or_assoc]

/-! ## How much is remembered -/

variable (s)

theorem cachedCount_eq (hs : s.remembers = true) : ∃ keys : List (ResourceClass × String), keys.Nodup ∧
    s.resolver.cachedCount = keys.length ∧ ∀ key, key ∈ keys ↔ (s.remembered key).isSome = true := by
  obtain ⟨cache, hcache⟩ := Option.isSome_iff_exists.1 hs
  refine ⟨cache.keys, cache.keys_nodup, ?_, fun key => ?_⟩
  · simp only [cachedCount, hcache, Table.size, Table.keys, List.length_map]
  · rw [← Table.contains_iff_mem_keys, Table.contains, remembered, cached?, hcache]
    rfl

variable {s}

theorem isSome_remembered_use (hs : s.remembers = true) (u : Use) (key : ResourceClass × String) :
    ((s.use u).2.remembered key).isSome = true ↔
      (s.remembered key).isSome = true ∨ (u.asks? = some key ∧ (s.use u).1.isPath = true) := by
  rw [s.remembered_use hs, Option.isSome_or, Bool.or_eq_true]
  by_cases hu : u.asks? = some key
  · rw [if_pos hu, s.answer_use hu, Use.isPath_answer hu, Option.isSome_or, Bool.or_eq_true]
    simp [hu]
  · simp [hu]

theorem isSome_remembered_uses (hs : s.remembers = true) (us : List Use) (key : ResourceClass × String) :
    ((s.uses us).remembered key).isSome = true ↔ (s.remembered key).isSome = true ∨ key ∈ s.answered us := by
  induction us generalizing s with
  | nil => simp [uses, answered]
  | cons u us ih =>
    have hu : (s.use u).2.remembers = true := (s.remembers_use u).trans hs
    refine (ih hu).trans ?_
    rw [isSome_remembered_use hs, answered, List.mem_append, or_assoc, Option.mem_toList,
      Option.filter_eq_some_iff]

/-- As much is remembered as was answered with a path, nothing counted twice. -/
theorem cachedCount_uses (hs : s.remembers = true) (hempty : ∀ key, s.remembered key = none) (us : List Use) :
    (s.uses us).resolver.cachedCount = (s.answered us).dedup.length := by
  obtain ⟨keys, hnodup, hcount, hmem⟩ := (s.uses us).cachedCount_eq ((remembers_uses us).trans hs)
  rw [hcount]
  refine ((List.perm_ext_iff_of_nodup hnodup (List.nodup_dedup _)).2 fun key => ?_).length_eq
  rw [hmem, isSome_remembered_uses hs, hempty, List.mem_dedup]
  simp

/-! ## All answers -/

theorem use_of_none {u : Use} {key : ResourceClass × String} (hu : u.asks? = some key)
    (hnone : (s.remembered key).or (s.scene.search key) = none) : (s.use u).2 = s := by
  rw [s.use_of_asks hu]
  obtain ⟨p, hp, -⟩ | ⟨-, -, h⟩ | ⟨p, -, hp, -⟩ := s.resolver.find_cases s.files key.2 key.1
  · rw [remembered, hp] at hnone
    cases hnone
  · rw [h]
  · have hfound : s.scene.search key = some p := hp
    simp [hfound] at hnone

theorem remembered_of_not_remembers (hs : s.remembers = false) (key : ResourceClass × String) :
    s.remembered key = none := by
  have hcache : s.resolver.cache = none := by simpa [remembers] using hs
  rw [remembered, cached?, hcache, Option.bind_none]

theorem remembers_start (made now : FileTree) (config : SearchConfig) :
    (start made now config).remembers = config.cache := by
  cases hc : config.cache <;> simp [start, remembers, ofConfig, hc]

theorem remembered_start (made now : FileTree) (config : SearchConfig) (key : ResourceClass × String) :
    (start made now config).remembered key = none := by
  by_cases hc : config.cache = true
  · simp only [start, remembered, cached?, ofConfig, if_pos hc]
    rfl
  · exact remembered_of_not_remembers (by rw [remembers_start]; simpa using hc) key

theorem answer_uses (hs : s.remembers = true) (hempty : ∀ key, s.remembered key = none) (us : List Use) {u : Use}
    {key : ResourceClass × String} (hu : u.asks? = some key) :
    ((s.uses us).use u).1 = u.answer (firstHit? key s.scene (us ++ [u])) := by
  rw [(s.uses us).answer_use hu, remembered_uses hs, scene_uses, hempty, Option.none_or, firstHit?_concat, if_pos hu]

theorem answer_uses_of_not_remembers (hs : s.remembers = false) (us : List Use) {u : Use}
    {key : ResourceClass × String} (hu : u.asks? = some key) :
    ((s.uses us).use u).1 = u.answer ((us.foldl Scene.after s.scene).search key) := by
  have hnone : (s.uses us).remembered key = none := remembered_of_not_remembers ((remembers_uses us).trans hs) key
  rw [(s.uses us).answer_use hu, hnone, scene_uses, Option.none_or]

end Session

/-- **A resolver that remembers answers each name with the first path that there was when it was asked for, and
until then that there is none.** While there is none, nothing is added to what is remembered; what is asked of other
names makes no difference; as much is remembered as was answered with a path; and while the files stay as they are,
the answers are those of a resolver that does not remember. -/
theorem remembers_first_hits (config : SearchConfig) (hc : config.cache = true) (made now : FileTree)
    (us : List Use) :
    let s := Session.start made now config
    (∀ u key, u.asks? = some key →
      ((s.uses us).use u).1 = u.answer (firstHit? key s.scene (us ++ [u])) ∧
      (firstHit? key s.scene (us ++ [u]) = none →
        ((s.uses us).use u).2.resolver.cachedCount = (s.uses us).resolver.cachedCount) ∧
      ((s.uses us).use u).1 = ((s.uses (us.filter (Use.concerns key))).use u).1) ∧
    (s.uses us).resolver.cachedCount = (s.answered us).dedup.length ∧
    ((∀ files, .change files ∉ us) → ∀ u,
      ((s.uses us).use u).1 = (((Session.start made now config.withoutCache).uses us).use u).1) := by
  intro s
  have hs : s.remembers = true := (Session.remembers_start made now config).trans hc
  have hempty : ∀ key, s.remembered key = none := Session.remembered_start made now config
  refine ⟨fun u key hu => ⟨Session.answer_uses hs hempty us hu, fun hnone => ?_, ?_⟩,
    Session.cachedCount_uses hs hempty us, fun hus u => ?_⟩
  · rw [firstHit?_concat, if_pos hu, ← Session.scene_uses] at hnone
    rw [Session.use_of_none hu]
    rw [Session.remembered_uses hs, hempty, Option.none_or]
    exact hnone
  · have hconcerns : u.concerns key = true := by simp [Use.concerns, hu]
    rw [Session.answer_uses hs hempty us hu, Session.answer_uses hs hempty _ hu, ← firstHit?_filter,
      List.filter_append, List.filter_singleton, hconcerns, cond_true]
  · rcases hu : u.asks? with _ | key
    · cases u with
      | find | resolve => cases hu
      | push | change => rfl
    · have hs' : (Session.start made now config.withoutCache).remembers = false := Session.remembers_start _ _ _
      rw [Session.answer_uses hs hempty us hu, Session.answer_uses_of_not_remembers hs' us hu, firstHit?_concat,
        if_pos hu, firstHit?_or_search key _ hus]
      rfl

/-- A directory in which metrics are looked for, with a file in it or without. -/
def metricsTree (files : List (String × Node)) : FileTree := { root := .directory [("a", .directory files)] }

/-- Metrics are asked for before there are any, while there are, and when they are gone again. -/
def metricsHistory : List Use :=
  [.find "x" .tfm, .change (metricsTree [("x.tfm", .file .empty)]), .resolve "x" .tfm, .change (metricsTree [])]

/-- They are still found, and the one path is all that is remembered. -/
theorem remembers_first_hits_metrics :
    let config := ({} : SearchConfig).addDefault .tfm ⟨"a"⟩
    let s := Session.start (metricsTree []) (metricsTree []) config
    config.cache = true ∧
    (s.use (.find "x" .tfm)).1 = .found none ∧
    ((s.uses metricsHistory).use (.find "x" .tfm)).1 = .found (some ⟨"a/x.tfm"⟩) ∧
    (s.uses metricsHistory).resolver.cachedCount = 1 ∧
    (s.answered metricsHistory).dedup.length = 1 := by
  intro config s
  have hcache : config.cache = true := rfl
  have hbefore := remembers_first_hits config hcache (metricsTree []) (metricsTree []) []
  have hafter := remembers_first_hits config hcache (metricsTree []) (metricsTree []) metricsHistory
  have hcount : (s.answered metricsHistory).dedup.length = 1 := by decide +kernel
  refine ⟨hcache, ?_, ?_, hafter.2.1.trans hcount, hcount⟩
  · exact (hbefore.1 (.find "x" .tfm) _ rfl).1.trans (congrArg Answer.found (by decide +kernel))
  · exact (hafter.1 (.find "x" .tfm) _ rfl).1.trans (congrArg Answer.found (by decide +kernel))

end Resolver

end Dvi
