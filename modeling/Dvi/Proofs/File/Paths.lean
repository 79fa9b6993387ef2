import Mathlib.Data.List.Induction
import Dvi.File.Path

/-!
# Components of joined paths

The components of a path that is joined to another stand behind those of the other. So a path can be taken apart into
components, some of them can be left out, and what is put together from the others is made of them.

* `Path.IsStep`: components that may stand anywhere in a path;
* `Path.components_join`: components of a joined path;
* **`Path.components_ofComponents`**: steps that were put together are still there;
* **`Path.components_join_filter`**: a path joined to another without its `.` components;
* `Path.contains_iff`: what it means that a path contains another.
-/

namespace Dvi.Path

/-! ## Pieces -/

theorem pieces_eq_splitOn (cs : List Char) : pieces cs = cs.splitOn '/' := by
  induction cs with
  | nil => rfl
  | cons c cs ih =>
    rw [List.splitOn_cons_eq_if_modifyHead, ← ih]
    by_cases hc : c = '/'
    · subst hc
      simp [pieces]
    · rw [pieces.eq_3 c cs hc, if_neg (by simpa using hc)]
      cases hpieces : pieces cs with
      | nil => exact absurd (ih.symm.trans hpieces) (List.splitOn_ne_nil '/' cs)
      | cons p ps => rfl

theorem pieces_append (as bs : List Char) : pieces (as ++ '/' :: bs) = pieces as ++ pieces bs := by
  simp only [pieces_eq_splitOn, List.splitOn_append_cons_self]

theorem pieces_ne_nil (cs : List Char) : pieces cs ≠ [] := by
  rw [pieces_eq_splitOn]
  exact List.splitOn_ne_nil '/' cs

theorem slash_not_mem_of_mem_pieces {cs piece : List Char} (h : piece ∈ pieces cs) : '/' ∉ piece := by
  fun_induction pieces cs generalizing piece with
  | case1 =>
    rw [List.mem_singleton.1 h]
    exact List.not_mem_nil
  | case2 rest ih =>
    obtain rfl | h := List.mem_cons.1 h
    · exact List.not_mem_nil
    · exact ih h
  | case3 c rest hc hnil => exact absurd hnil (pieces_ne_nil rest)
  | case4 c rest hc p ps hps ih =>
    have hc : '/' ≠ c := fun h => hc h.symm
    obtain rfl | h := List.mem_cons.1 h
    · exact fun hmem => (List.mem_cons.1 hmem).elim hc (ih (by rw [hps]; exact .head ps))
    · exact ih (by rw [hps]; exact .tail p h)

/-- The components of pieces that are not the first ones of a path. -/
def steps (ps : List (List Char)) : List Component := (ps.filter (!isVoid ·)).map ofPiece

theorem steps_append (ps qs : List (List Char)) : steps (ps ++ qs) = steps ps ++ steps qs := by
  simp [steps]

/-- A component that may stand anywhere in a path: a step up, or a name without slashes that does not stand for
anything else. -/
def IsStep : Component → Prop
  | .root | .here => False
  | .up => True
  | .name s => '/' ∉ s.toList ∧ s.toList ≠ [] ∧ s.toList ≠ ['.'] ∧ s.toList ≠ ['.', '.']

theorem isStep_of_mem_steps {cs : List Char} {x : Component} (h : x ∈ steps (pieces cs)) : IsStep x := by
  obtain ⟨piece, hpiece, rfl⟩ := List.mem_map.1 h
  obtain ⟨hmem, hvoid⟩ := List.mem_filter.1 hpiece
  have hslash := slash_not_mem_of_mem_pieces hmem
  unfold ofPiece
  split
  · trivial
  · rename_i hup
    simp only [isVoid, Bool.not_eq_true', Bool.or_eq_false_iff, beq_eq_false_iff_ne] at hvoid
    simpa [IsStep, hslash, hvoid] using hup

/-! ## Components -/

section Components

variable (p : Path)

/-- The component at the front of a path that stands for the root, or for the place where the path starts. -/
def front : List Component := p.split.1

theorem components_eq : p.components = p.front ++ steps (pieces p.text.toList) := by
  unfold components front split
  dsimp only
  split
  · rename_i habsolute
    obtain ⟨cs, hcs⟩ : ∃ cs, p.text.toList = '/' :: cs := by
      simpa [isAbsolute, List.head?_eq_some_iff] using habsolute
    rw [hcs]
    rfl
  split
  · rename_i hfirst
    obtain ⟨rest, hrest⟩ : ∃ rest, pieces p.text.toList = ['.'] :: rest := by
      simpa [List.head?_eq_some_iff] using hfirst
    rw [hrest]
    rfl
  · rfl

theorem front_cases : p.isAbsolute = true ∧ p.front = [.root] ∨ p.isAbsolute = false ∧ p.front = [.here] ∨
    p.isAbsolute = false ∧ p.front = [] := by
  unfold front split
  dsimp only
  split
  · rename_i habsolute
    exact .inl ⟨habsolute, rfl⟩
  · rename_i habsolute
    rw [Bool.not_eq_true] at habsolute
    split
    · exact .inr (.inl ⟨habsolute, rfl⟩)
    · exact .inr (.inr ⟨habsolute, rfl⟩)

variable {p} {q : Path}

theorem front_eq_nil (h : ∀ x ∈ p.components, IsStep x) : p.isAbsolute = false ∧ p.front = [] := by
  rw [components_eq] at h
  obtain ⟨-, hfront⟩ | ⟨-, hfront⟩ | hfront := p.front_cases
  · exact (h .root (by rw [hfront]; exact .head _)).elim
  · exact (h .here (by rw [hfront]; exact .head _)).elim
  · exact hfront

theorem front_congr (habsolute : q.isAbsolute = p.isAbsolute)
    (hfirst : (pieces q.text.toList).head? = (pieces p.text.toList).head?) : q.front = p.front := by
  unfold front split
  dsimp only
  rw [habsolute, hfirst]
  split
  · rfl
  · split <;> rfl

theorem head?_pieces_append (as bs : List Char) : (pieces (as ++ '/' :: bs)).head? = (pieces as).head? := by
  obtain ⟨piece, rest, h⟩ := List.exists_cons_of_ne_nil (pieces_ne_nil as)
  rw [pieces_append, h]
  rfl

/-- What comes behind a slash stands behind the components in front of it. -/
theorem components_slash {cs rest : List Char} (hq : q.text.toList = cs ++ '/' :: rest)
    (hp : p.text.toList = cs ∧ cs ≠ [] ∨ p.text.toList = cs ++ ['/']) :
    q.components = p.components ++ steps (pieces rest) := by
  have hsteps : steps (pieces p.text.toList) = steps (pieces cs) := by
    obtain ⟨hp, -⟩ | hp := hp <;> rw [hp]
    rw [pieces_append, steps_append]
    exact List.append_nil _
  have hfirst : (pieces q.text.toList).head? = (pieces p.text.toList).head? := by
    obtain ⟨hp, -⟩ | hp := hp <;> rw [hq, hp, head?_pieces_append]
    rw [head?_pieces_append]
  have habsolute : q.isAbsolute = p.isAbsolute := by
    rw [isAbsolute, isAbsolute, hq]
    obtain ⟨hp, hne⟩ | hp := hp <;> rw [hp]
    · obtain ⟨c, cs, rfl⟩ := List.exists_cons_of_ne_nil hne
      rfl
    · cases cs <;> rfl
  rw [components_eq, components_eq p, front_congr habsolute hfirst, hq, pieces_append, steps_append, hsteps,
    List.append_assoc]

/-- **Steps that are joined to a path stand behind its components.** -/
theorem components_join (hq : ∀ x ∈ q.components, IsStep x) : (p.join q).components = p.components ++ q.components := by
  obtain ⟨habsolute, hfront⟩ := front_eq_nil hq
  have hsteps : q.components = steps (pieces q.text.toList) := by rw [components_eq, hfront, List.nil_append]
  rw [join, habsolute, if_neg nofun, hsteps]
  by_cases hempty : p.text = ""
  · have hp : p.components = [] := by
      rw [components, split, isAbsolute, hempty]
      rfl
    rw [hempty, hp, ← hsteps]
    simp
  by_cases hslash : p.text.toList.getLast? = some '/'
  · obtain ⟨cs, hcs⟩ := List.getLast?_eq_some_iff.1 hslash
    rw [if_pos (by simp [hslash])]
    exact components_slash (by simp [hcs]) (.inr hcs)
  · rw [if_neg (by simp [hempty, hslash])]
    exact components_slash (by simp) (.inl ⟨rfl, fun h => hempty (String.toList_eq_nil_iff.1 h)⟩)

end Components

/-! ## Putting components together -/

theorem components_name {s : String} (h : IsStep (.name s)) : (Path.mk s).components = [.name s] := by
  obtain ⟨hslash, hempty, hhere, hup⟩ := h
  have hpieces : pieces s.toList = [s.toList] := by
    rw [pieces_eq_splitOn]
    exact List.splitOn_eq_singleton hslash
  have hfront : (Path.mk s).front = [] := by
    have hrelative : (Path.mk s).isAbsolute = false := by
      refine Bool.eq_false_iff.2 fun h => hslash ?_
      obtain ⟨cs, hcs⟩ := List.head?_eq_some_iff.1 (beq_iff_eq.1 h)
      rw [hcs]
      exact .head cs
    rw [front, split, hrelative, if_neg nofun, hpieces, if_neg (by simpa using hhere)]
  rw [components_eq, hfront, hpieces]
  simp [steps, isVoid, ofPiece, hempty, hhere, hup]

theorem ofComponents_concat_up (cs : List Component) : ofComponents (cs ++ [.up]) = (ofComponents cs).join ⟨".."⟩ := by
  rw [ofComponents, List.foldl_append]
  rfl

theorem ofComponents_concat_name (cs : List Component) (s : String) :
    ofComponents (cs ++ [.name s]) = (ofComponents cs).join ⟨s⟩ := by
  rw [ofComponents, List.foldl_append]
  rfl

/-- **Steps that are put together behind others stand behind their components.** -/
theorem components_ofComponents_append (start : List Component) {cs : List Component} (h : ∀ x ∈ cs, IsStep x) :
    (ofComponents (start ++ cs)).components = (ofComponents start).components ++ cs := by
  induction cs using List.reverseRecOn with
  | nil => rw [List.append_nil, List.append_nil]
  | append_singleton cs c ih =>
    have hc : IsStep c := h c (List.mem_append_right _ (.head []))
    rw [← List.append_assoc, ← List.append_assoc, ← ih fun x hx => h x (List.mem_append_left _ hx)]
    cases c with
    | root | here => exact hc.elim
    | up =>
      have hup : (Path.mk "..").components = [.up] := by decide +kernel
      rw [ofComponents_concat_up, components_join (by rw [hup]; simpa using hc), hup]
    | name s =>
      have hname : (Path.mk s).components = [.name s] := components_name hc
      rw [ofComponents_concat_name, components_join (by rw [hname]; simpa using hc), hname]

theorem components_ofComponents {cs : List Component} (h : ∀ x ∈ cs, IsStep x) : (ofComponents cs).components = cs :=
  components_ofComponents_append [] h

theorem components_ofComponents_root {cs : List Component} (h : ∀ x ∈ cs, IsStep x) :
    (ofComponents (.root :: cs)).components = .root :: cs := by
  have hroot : (ofComponents [.root]).components = [.root] := by decide +kernel
  have hcomponents := components_ofComponents_append [.root] h
  rw [hroot] at hcomponents
  exact hcomponents

/-- **A path that is joined to another without its `.` components**: an absolute one stands for itself, and the
components of any other stand behind those of the first. -/
theorem components_join_filter (p q : Path) :
    (p.join (.ofComponents (q.components.filter (· != .here)))).components =
      if q.isAbsolute then q.components else p.components ++ q.components.filter (· != .here) := by
  have hsteps : ∀ x ∈ steps (pieces q.text.toList), IsStep x := fun x hx => isStep_of_mem_steps hx
  have hfilter : (steps (pieces q.text.toList)).filter (· != .here) = steps (pieces q.text.toList) := by
    refine List.filter_eq_self.2 fun x hx => ?_
    cases x with
    | here => exact (hsteps .here hx).elim
    | root | up | name => rfl
  rw [components_eq q, List.filter_append, hfilter]
  obtain ⟨habsolute, hfront⟩ | ⟨habsolute, hfront⟩ | ⟨habsolute, hfront⟩ := q.front_cases
  · have hjoin : ∀ r : Path, r.components = .root :: steps (pieces q.text.toList) → p.join r = r := by
      intro r hr
      obtain ⟨h, -⟩ | ⟨-, h⟩ | ⟨-, h⟩ := r.front_cases
      · exact if_pos h
      · rw [components_eq, h] at hr
        cases hr
      · rw [components_eq, h, List.nil_append] at hr
        have hroot : IsStep .root := isStep_of_mem_steps (hr ▸ List.mem_cons_self)
        exact hroot.elim
    rw [hfront, if_pos habsolute]
    have hcomponents := components_ofComponents_root hsteps
    exact (congrArg components (hjoin _ hcomponents)).trans hcomponents
  all_goals
    rw [hfront, habsolute, if_neg nofun]
    have hcomponents := components_ofComponents hsteps
    refine (components_join ?_).trans (congrArg _ hcomponents)
    intro x hx
    exact hsteps x (hcomponents ▸ hx)

/-! ## Components inside others -/

theorem occurs_iff_infix {α : Type} [BEq α] [LawfulBEq α] {part l : List α} : occurs part l = true ↔ part <:+: l := by
  induction l with
  | nil => simp [occurs]
  | cons a l ih => rw [occurs, Bool.or_eq_true, List.isPrefixOf_iff_prefix, ih, List.infix_cons_iff]

theorem contains_iff {p q : Path} : p.contains q = true ↔ q.components ≠ [] ∧ q.components <:+: p.components := by
  rw [contains, Bool.and_eq_true, bne_iff_ne, occurs_iff_infix]

end Dvi.Path
