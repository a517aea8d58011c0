import ColorTheme.Proofs.Normalize

/-!
Paths with the components of a file. Such a path leads to the file, unless a slash behind the name
asks for a place in it; then it leads nowhere, though by its components it is the same path. -/
namespace ColorTheme

namespace Path

theorem isAbsolute_iff_root {p : Path} :
    p.isAbsolute = true ↔ p.components.head? = some .root := by
  obtain ⟨inner, known, components⟩ := p.exists_inner
  rw [components]
  cases p.isAbsolute with
  | true => simp
  | false =>
    refine ⟨nofun, fun root => ?_⟩
    exact absurd rfl (known _ (List.mem_of_mem_head? root)).1

theorem innerComponent?_eq_none {part : Text} :
    innerComponent? part = none ↔ part = [] ∨ part = ['.'] := by
  unfold innerComponent?
  split
  · rename_i either
    simpa using either
  · rename_i neither
    have other : ¬(part = [] ∨ part = ['.']) := by simpa using neither
    split <;> simp [other]

theorem exists_parts {p : Path} {inner : List Component} (filled : inner ≠ [])
    (components : p.components = .root :: inner) : ∃ rest,
      p.text.splitOn '/' = [] :: rest ∧ rest ≠ [] ∧ rest.filterMap innerComponent? = inner := by
  have absolute : p.isAbsolute = true := isAbsolute_iff_root.mpr (by rw [components]; rfl)
  obtain ⟨first, rest, parts⟩ : ∃ first rest, p.text.splitOn '/' = first :: rest :=
    List.exists_cons_of_ne_nil (List.splitOnP_ne_nil _ _)
  rw [components_eq parts, if_pos absolute] at components
  have meanings : rest.filterMap innerComponent? = inner := (List.cons.inj components).2
  have more : rest ≠ [] := by
    rintro rfl
    exact filled meanings.symm
  obtain rfl := (isAbsolute_iff parts more).mp absolute
  exact ⟨rest, parts, more, meanings⟩

end Path

namespace Files

open ColorTheme.Path

variable {fs : Files} {place names : Location}

theorem IsTree.above (tree : fs.IsTree) (there : (fs.at? (place ++ names)).isSome = true)
    (more : names ≠ []) : fs.isDirectory place = true := by
  induction names using List.reverseRecOn with
  | nil => contradiction
  | append_singleton front last ih =>
    have parent : fs.isDirectory (place ++ front) = true := by
      obtain ⟨entry, known⟩ := Option.isSome_iff_exists.mp there
      rcases mem_of_at? known with root | member
      · simp at root
      · obtain ⟨listed, member, same⟩ := List.mem_map.mp member
        have directory := tree.parents listed member
        rwa [same, ← List.append_assoc, List.dropLast_concat] at directory
    by_cases only : front = []
    · rwa [only, List.append_nil] at parent
    · refine ih ?_ only
      rw [of_decide_eq_true parent]
      rfl

theorem enter_name {part name : Text} (directory : fs.isDirectory place = true)
    (meaning : innerComponent? part = some (.name name))
    (there : (fs.at? (place ++ [name])).isSome = true) :
    fs.enter place part = .ok (place ++ [name]) := by
  unfold innerComponent? at meaning
  split at meaning
  · contradiction
  · rename_i plain
    split at meaning
    · cases meaning
    · rename_i named
      cases meaning
      simp only [enter, directory, Bool.not_true, Bool.false_eq_true, if_false, if_neg plain,
        if_neg named, if_pos there]

/-- Parts that mean the names of a file lead to it, or on behind it. -/
theorem IsTree.enterAll_file (tree : fs.IsTree) {parts : List Text}
    (there : (fs.at? (place ++ names)).isSome = true)
    (file : fs.isDirectory (place ++ names) = false)
    (meanings : parts.filterMap innerComponent? = names.map .name) :
    fs.enterAll place parts = .ok (place ++ names) ∨
      fs.enterAll place parts = .error .notADirectory ∧
        ∃ front last, parts = front ++ [last] ∧ innerComponent? last = none := by
  induction parts generalizing place names with
  | nil =>
    have empty : names = [] := by simpa using meanings
    exact .inl (by simp [enterAll, empty])
  | cons part parts ih =>
    by_cases empty : names = []
    · subst empty
      rw [List.append_nil] at file
      have blank := List.filterMap_eq_nil_iff.mp meanings
      refine .inr ⟨by simp [enterAll, enter, file], (part :: parts).dropLast,
        (part :: parts).getLast (List.cons_ne_nil _ _), ?_, blank _ (List.getLast_mem _)⟩
      exact (List.dropLast_append_getLast _).symm
    · have directory := tree.above there empty
      have later : ∀ {next : Location} {left : List Text}, fs.enter place part = .ok next →
          place ++ names = next ++ left → parts.filterMap innerComponent? = left.map .name →
          fs.enterAll place (part :: parts) = .ok (place ++ names) ∨
            fs.enterAll place (part :: parts) = .error .notADirectory ∧
              ∃ front last, part :: parts = front ++ [last] ∧ innerComponent? last = none := by
        intro next left step whole meanings
        rw [whole] at there file ⊢
        rw [enterAll, step]
        refine (ih there file meanings).imp_right ?_
        rintro ⟨lost, front, last, rfl, blank⟩
        exact ⟨lost, part :: front, last, rfl, blank⟩
      cases meaning : innerComponent? part with
      | none =>
        rw [List.filterMap_cons_none meaning] at meanings
        exact later (enter_blank directory meaning) rfl meanings
      | some c =>
        rw [List.filterMap_cons_some meaning] at meanings
        obtain ⟨name, left, rfl⟩ := List.exists_cons_of_ne_nil empty
        obtain ⟨rfl, behind⟩ := List.cons.inj meanings
        rw [List.append_cons] at there
        refine later (enter_name directory meaning ?_) (List.append_cons _ _ _) behind
        by_cases last : left = []
        · rwa [last, List.append_nil] at there
        · rw [of_decide_eq_true (tree.above there last)]
          rfl

/-- A path that spells out a place beyond a file: a slash follows the name of the file. -/
structure Beyond (fs : Files) (path : Path) : Prop where
  absolute : path.isAbsolute = true
  lost : fs.locate path = .error .notADirectory
  slash : ['/'] <:+ path.text ∨ ['/', '.'] <:+ path.text

/-- A path with the components of a file leads to it, if it ends with them. -/
theorem IsTree.locate_same (tree : fs.IsTree) {path : Path} (named : ∀ name ∈ place, IsName name)
    (there : (fs.at? place).isSome = true) (file : fs.isDirectory place = false)
    (same : path.same (spell place) = true) : fs.locate path = .ok place ∨ Beyond fs path := by
  have inner := ne_root file
  obtain ⟨c, spelled⟩ := components_spell named
  have root : c = .root := by
    obtain ⟨head, tail, rfl⟩ := List.exists_cons_of_ne_nil inner
    have absolute : (spell (head :: tail)).isAbsolute = true := rfl
    rw [isAbsolute_iff_root, spelled] at absolute
    exact Option.some.inj absolute
  subst root
  have components : path.components = .root :: place.map .name :=
    (of_decide_eq_true same).trans spelled
  have absolute : path.isAbsolute = true := isAbsolute_iff_root.mpr (by rw [components]; rfl)
  obtain ⟨rest, parts, more, meanings⟩ := exists_parts (by simpa using inner) components
  have text := text_of_parts parts
  have located : fs.locate path = fs.enterAll [] rest := by
    have start : fs.enter [] [] = .ok [] := enter_blank rfl rfl
    have filled : path.text ≠ [] := by simp [text, joined_cons '/' [] more]
    rw [locate_eq filled, parts, origin, if_pos absolute, enterAll, start]
  rw [located]
  refine (@IsTree.enterAll_file fs [] place tree rest there file meanings).imp_right ?_
  rintro ⟨lost, front, last, rfl, blank⟩
  have ends : '/' :: last <:+ path.text := by
    have whole := joined_append '/' (List.cons_ne_nil [] front) (List.cons_ne_nil last [])
    refine ⟨joined '/' ([] :: front), ?_⟩
    rw [text, ← List.cons_append, whole]
    simp [joined]
  refine ⟨absolute, located.trans lost, ?_⟩
  rcases innerComponent?_eq_none.mp blank with rfl | rfl
  · exact .inl ends
  · exact .inr ends

end Files

end ColorTheme
