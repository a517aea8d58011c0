import ColorTheme.Proofs.Files
import ColorTheme.Proofs.Text.Lines
import Mathlib.Data.List.Induction

/-!
Paths and the places they lead to. A file is named by the last part of any path to it, and the
directory of the path leads to the place above; so what is spelled from there leads to the same
place whichever path the file was found by. -/
namespace ColorTheme

abbrev joined (c : Char) (parts : List Text) : Text := [c].intercalate parts

theorem joined_cons (c : Char) (first : Text) {rest : List Text} (more : rest ≠ []) :
    joined c (first :: rest) = first ++ c :: joined c rest := by
  obtain ⟨next, rest, rfl⟩ := List.exists_cons_of_ne_nil more
  simp [joined, List.intercalate_cons_cons]

theorem joined_append (c : Char) {front back : List Text} (filled : front ≠ [])
    (more : back ≠ []) : joined c (front ++ back) = joined c front ++ c :: joined c back := by
  induction front with
  | nil => contradiction
  | cons first front ih =>
    rw [List.cons_append, joined_cons c first (by simp [more])]
    cases front with
    | nil => simp [joined]
    | cons second front =>
      rw [ih (List.cons_ne_nil second front), joined_cons c first (List.cons_ne_nil second front)]
      simp

namespace Path

/-- What a file or a directory may be called. -/
def IsName (part : Text) : Prop := part ≠ [] ∧ part ≠ ['.'] ∧ part ≠ ['.', '.'] ∧ '/' ∉ part

instance (part : Text) : Decidable (IsName part) := inferInstanceAs (Decidable (_ ∧ _ ∧ _ ∧ _))

theorem IsName.inner {part : Text} (named : IsName part) :
    innerComponent? part = some (.name part) := by
  obtain ⟨filled, here, up, _⟩ := named
  simp [innerComponent?, filled, here, up]

/-- Components of inner parts, each with its end in the path. -/
def innerEnds (offset : Nat) (parts : List Text) : List (Component × Nat) :=
  (partsFrom offset parts).filterMap fun (part, stop) => (innerComponent? part).map (·, stop)

theorem partsFrom_concat (offset : Nat) (front : List Text) (part : Text) :
    partsFrom offset (front ++ [part]) =
      partsFrom offset front ++ [(part, offset + (joined '/' (front ++ [part])).length)] := by
  induction front generalizing offset with
  | nil => simp [partsFrom, joined]
  | cons first front ih =>
    have whole := joined_cons '/' first (List.concat_ne_nil part front)
    simp only [List.cons_append, partsFrom, ih, whole, List.length_append, List.length_cons]
    have stop : offset + first.length + 1 + (joined '/' (front ++ [part])).length =
        offset + (first.length + ((joined '/' (front ++ [part])).length + 1)) := by omega
    rw [stop]

theorem innerEnds_concat (offset : Nat) (front : List Text) (part : Text) :
    innerEnds offset (front ++ [part]) = innerEnds offset front ++
      ((innerComponent? part).map (·, offset + (joined '/' (front ++ [part])).length)).toList := by
  cases meaning : innerComponent? part with
  | none => simp [innerEnds, partsFrom_concat, meaning]
  | some c => simp [innerEnds, partsFrom_concat, meaning]

theorem innerEnds_last (offset : Nat) (parts : List Text) :
    (innerEnds offset parts = [] ∧ ∀ part ∈ parts, innerComponent? part = none) ∨
      ∃ ends c front part back,
        innerEnds offset parts = ends ++ [(c, offset + (joined '/' (front ++ [part])).length)] ∧
        parts = front ++ part :: back ∧ part ≠ [] ∧
        ∀ other ∈ back, innerComponent? other = none := by
  induction parts using List.reverseRecOn with
  | nil => exact .inl ⟨rfl, nofun⟩
  | append_singleton parts last ih =>
    rw [innerEnds_concat]
    cases meaning : innerComponent? last with
    | some c =>
      have filled : last ≠ [] := by
        rintro rfl
        contradiction
      exact .inr ⟨_, c, parts, last, [], rfl, rfl, filled, nofun⟩
    | none =>
      rcases ih with ⟨empty, blank⟩ | ⟨ends, c, front, part, back, known, rfl, filled, blank⟩
      · refine .inl ⟨by simp [empty], fun part member => ?_⟩
        rcases List.mem_append.mp member with earlier | same
        · exact blank part earlier
        · rwa [List.mem_singleton.mp same]
      · refine .inr ⟨ends, c, front, part, back ++ [last], by simp [known], by simp, filled, ?_⟩
        intro other member
        rcases List.mem_append.mp member with earlier | same
        · exact blank other earlier
        · rwa [List.mem_singleton.mp same]

section Parts

variable {p : Path} {first : Text} {rest : List Text} (parts : p.text.splitOn '/' = first :: rest)

include parts

theorem text_of_parts : p.text = joined '/' (first :: rest) := by
  rw [← parts]
  exact (List.intercalate_splitOn '/').symm

theorem notMem_first : '/' ∉ first := by
  have member : first ∈ p.text.splitOn '/' := parts ▸ List.mem_cons_self
  exact notMem_of_mem_splitOn member

theorem isAbsolute_iff (more : rest ≠ []) : p.isAbsolute = true ↔ first = [] := by
  have whole := (text_of_parts parts).trans (joined_cons '/' first more)
  cases first with
  | nil => simp [isAbsolute, whole, joined]
  | cons c first =>
    have other : c ≠ '/' := fun same => notMem_first parts (same ▸ List.mem_cons_self)
    simp [isAbsolute, whole, joined, other]

/-- The first of several parts is the root where it is empty. -/
theorem componentEnds_cons (more : rest ≠ []) :
    ∃ c, p.componentEnds = (c, max 1 first.length) :: innerEnds (first.length + 1) rest := by
  have absolute := isAbsolute_iff parts more
  simp only [componentEnds, parts, partsFrom, Nat.zero_add]
  by_cases root : first = []
  · subst root
    refine ⟨.root, ?_⟩
    simp [absolute, innerEnds]
  · have length : max 1 first.length = first.length := by
      have := List.length_pos_iff.mpr root
      omega
    rw [if_neg (absolute.not.mpr root), length]
    split
    · exact ⟨.here, rfl⟩
    · rename_i other
      have known : innerComponent? first ≠ none := by
        rw [innerComponent?, if_neg (by simpa [root] using other)]
        split
        · exact Option.some_ne_none _
        · exact Option.some_ne_none _
      obtain ⟨c, inner⟩ := Option.ne_none_iff_exists'.mp known
      exact ⟨c, by simp [inner, innerEnds]⟩

end Parts
/-- The directory of a named file ends behind the last part that means something, which may be
the root. -/
theorem directory_eq {p : Path} {first name : Text} {rest : List Text}
    (parts : p.text.splitOn '/' = first :: (rest ++ [name])) (named : IsName name) :
    (p.directory = ⟨['/']⟩ ∧ first = [] ∧ ∀ part ∈ rest, innerComponent? part = none) ∨
      ∃ front part back, first :: rest = front ++ part :: back ∧ part ≠ [] ∧
        (∀ other ∈ back, innerComponent? other = none) ∧
        p.directory = ⟨joined '/' (front ++ [part])⟩ := by
  have text := text_of_parts parts
  obtain ⟨c, ends⟩ := componentEnds_cons parts (List.concat_ne_nil name rest)
  rw [innerEnds_concat, named.inner] at ends
  have cut : ∀ front part back, first :: rest = front ++ part :: back →
      p.text.take (joined '/' (front ++ [part])).length = joined '/' (front ++ [part]) := by
    intro front part back whole
    have split : first :: (rest ++ [name]) = (front ++ [part]) ++ (back ++ [name]) := by
      rw [← List.cons_append, whole]
      simp
    rw [text, split, joined_append '/' (List.concat_ne_nil part front)
      (List.concat_ne_nil name back)]
    exact List.take_left
  rcases innerEnds_last (first.length + 1) rest with
    ⟨empty, blank⟩ | ⟨earlier, last, front, part, back, known, rfl, filled, blank⟩
  · have directory : p.directory = ⟨p.text.take (max 1 first.length)⟩ := by
      simp [directory, parent?, ends, empty]
    by_cases root : first = []
    · subst root
      refine .inl ⟨?_, rfl, blank⟩
      rw [directory, text, joined_cons '/' [] (List.concat_ne_nil name rest)]
      rfl
    · refine .inr ⟨[], first, rest, rfl, root, blank, ?_⟩
      have length : max 1 first.length = (joined '/' ([] ++ [first])).length := by
        have := List.length_pos_iff.mpr root
        simp only [joined, List.nil_append, List.intercalate_singleton]
        omega
      rw [directory, length, cut [] first rest rfl]
  · have directory : p.directory =
        ⟨p.text.take (first.length + 1 + (joined '/' (front ++ [part])).length)⟩ := by
      simp [directory, parent?, ends, known]
    refine .inr ⟨first :: front, part, back, rfl, filled, blank, ?_⟩
    have length : (joined '/' (first :: front ++ [part])).length =
        first.length + 1 + (joined '/' (front ++ [part])).length := by
      rw [List.cons_append, joined_cons '/' first (List.concat_ne_nil part front)]
      simp only [List.length_append, List.length_cons]
      omega
    rw [directory, ← length, cut (first :: front) part back rfl]

theorem IsName.relative {p : Path} (named : IsName p.text) : p.isAbsolute = false := by
  cases text : p.text with
  | nil => exact absurd text named.1
  | cons c rest =>
    have other : c ≠ '/' := fun same => named.2.2.2 (by simp [text, same])
    simp [isAbsolute, text, other]

theorem IsName.parts {part : Text} (named : IsName part) : part.splitOn '/' = [part] := by
  have split := List.splitOn_intercalate '/' (List.forall_mem_singleton.mpr named.2.2.2)
    (List.cons_ne_nil part [])
  rwa [List.intercalate_singleton] at split

theorem IsName.componentEnds {p : Path} (named : IsName p.text) :
    p.componentEnds = [(.name p.text, p.text.length)] := by
  simp [Path.componentEnds, named.parts, partsFrom, named.relative, named.2.1, named.inner]

/-- A path of one part is read from where the program runs. -/
theorem directory_single {p : Path} {name : Text} (parts : p.text.splitOn '/' = [name])
    (named : IsName name) : p.isAbsolute = false ∧ p.directory = ⟨[]⟩ := by
  have text : p.text = name := by simpa [joined] using text_of_parts parts
  rw [← text] at named
  exact ⟨named.relative, by simp [directory, parent?, named.componentEnds]⟩

/-- What is spelled from a directory without a final slash. -/
theorem join_relative {a b : Path} {front : List Text} {last : Text}
    (relative : b.isAbsolute = false) (text : a.text = joined '/' (front ++ [last]))
    (filled : last ≠ []) (plain : '/' ∉ last) : a.join b = ⟨a.text ++ '/' :: b.text⟩ := by
  obtain ⟨start, c, rfl⟩ := (List.eq_nil_or_concat last).resolve_left filled
  have ends : a.text.getLast? = some c := by
    rw [text]
    cases front with
    | nil => simp [joined]
    | cons first front =>
      rw [joined_append '/' (List.cons_ne_nil first front) (by simp)]
      simp [joined, List.getLast?_append, List.getLast?_cons]
  have other : c ≠ '/' := fun same => plain (by simp [same])
  have inner : a.text.isEmpty = false := by
    cases empty : a.text with
    | nil => simp [empty] at ends
    | cons => rfl
  simp [join, relative, inner, ends, other]

theorem innerEnds_names (offset : Nat) {parts : List Text} (named : ∀ part ∈ parts, IsName part) :
    (innerEnds offset parts).map Prod.fst = parts.map .name := by
  induction parts generalizing offset with
  | nil => rfl
  | cons first parts ih =>
    obtain ⟨head, rest⟩ := List.forall_mem_cons.mp named
    have later := ih (offset + first.length + 1) rest
    simpa [innerEnds, partsFrom, head.inner] using later

end Path

namespace Files

open ColorTheme.Path

theorem spell_text (first : Text) (rest : Location) :
    (spell (first :: rest)).text = joined '/' ([] :: first :: rest) := by
  have slashed : ∀ parts : List Text, parts.flatMap ('/' :: ·) = joined '/' ([] :: parts) := by
    intro parts
    induction parts with
    | nil => rfl
    | cons part parts ih =>
      rw [List.flatMap_cons, ih, joined_cons '/' [] (List.cons_ne_nil part parts)]
      cases parts with
      | nil => simp [joined]
      | cons => simp
  exact slashed (first :: rest)

theorem components_spell {place : Location} (named : ∀ name ∈ place, IsName name) :
    ∃ c, (spell place).components = c :: place.map .name := by
  cases place with
  | nil => exact ⟨.root, by decide⟩
  | cons first rest =>
    have parts : (spell (first :: rest)).text.splitOn '/' = [] :: first :: rest := by
      rw [spell_text]
      apply List.splitOn_intercalate
      · exact List.forall_mem_cons.mpr
          ⟨List.not_mem_nil, fun name member => (named name member).2.2.2⟩
      · exact List.cons_ne_nil _ _
    obtain ⟨c, ends⟩ := componentEnds_cons parts (List.cons_ne_nil first rest)
    refine ⟨c, ?_⟩
    rw [components, ends, List.map_cons, innerEnds_names _ named]

theorem spell_inj {place other : Location} (named : ∀ name ∈ place, IsName name)
    (also : ∀ name ∈ other, IsName name) (same : (spell place).same (spell other) = true) :
    place = other := by
  obtain ⟨c, first⟩ := components_spell named
  obtain ⟨d, second⟩ := components_spell also
  simp only [Path.same, first, second, decide_eq_true_eq, List.cons.injEq] at same
  exact (List.map_inj_right fun _ _ => Component.name.inj).mp same.2

/-- A tree whose entries stand in directories, seen from a place that is spelled by names. -/
structure IsTree (fs : Files) : Prop where
  named : ∀ name ∈ fs.current, IsName name
  parents : ∀ entry ∈ fs.entries, fs.isDirectory entry.1.dropLast = true

theorem mem_of_at? {fs : Files} {place : Location} {entry : Entry}
    (known : fs.at? place = some entry) : place = [] ∨ place ∈ fs.entries.map Prod.fst := by
  unfold at? at known
  split at known
  · rename_i root
    exact .inl (List.isEmpty_iff.mp root)
  · obtain ⟨front, back, whole, _⟩ := List.lookup_eq_some_iff.mp known
    exact .inr (by simp [whole])

theorem IsTree.parent {fs : Files} (tree : fs.IsTree) {place : Location}
    (directory : fs.isDirectory place = true) : fs.isDirectory place.dropLast = true := by
  have known : fs.at? place = some .directory := by simpa [isDirectory] using directory
  rcases mem_of_at? known with rfl | member
  · exact directory
  · obtain ⟨entry, listed, rfl⟩ := List.mem_map.mp member
    exact tree.parents entry listed

theorem enter_eq_ok {fs : Files} {place next : Location} {part : Text}
    (entered : fs.enter place part = .ok next) : fs.isDirectory place = true ∧
      (innerComponent? part = none ∧ next = place ∨ next = place.dropLast ∨
        part ≠ [] ∧ part ≠ ['.'] ∧ part ≠ ['.', '.'] ∧ next = place ++ [part]) := by
  simp only [enter] at entered
  split at entered
  · contradiction
  · rename_i inside
    refine ⟨by simpa using inside, ?_⟩
    split at entered
    · rename_i blank
      cases entered
      exact .inl ⟨by rw [innerComponent?, if_pos blank], rfl⟩
    · rename_i plain
      split at entered
      · cases entered
        exact .inr (.inl rfl)
      · rename_i named
        split at entered
        · cases entered
          rw [Bool.or_eq_true, not_or] at plain
          exact .inr (.inr ⟨by simpa using plain.1, by simpa using plain.2, named, rfl⟩)
        · contradiction

theorem enter_blank {fs : Files} {place : Location} {part : Text}
    (directory : fs.isDirectory place = true) (blank : innerComponent? part = none) :
    fs.enter place part = .ok place := by
  have plain : (part.isEmpty || part = ".") = true := by
    unfold innerComponent? at blank
    split at blank
    · assumption
    · split at blank
      · contradiction
      · contradiction
  simp only [enter, directory, plain, Bool.not_true, Bool.false_eq_true, if_false, if_true]

theorem enterAll_cons_eq_ok {fs : Files} {place last : Location} {part : Text} {parts : List Text}
    (entered : fs.enterAll place (part :: parts) = .ok last) :
    ∃ next, fs.enter place part = .ok next ∧ fs.enterAll next parts = .ok last := by
  unfold enterAll at entered
  split at entered
  · contradiction
  · rename_i next step
    exact ⟨next, step, entered⟩

theorem enterAll_append_eq_ok {fs : Files} {place last : Location} {front back : List Text}
    (entered : fs.enterAll place (front ++ back) = .ok last) :
    ∃ next, fs.enterAll place front = .ok next ∧ fs.enterAll next back = .ok last := by
  rw [enterAll_append] at entered
  cases step : fs.enterAll place front with
  | error e => simp [step, Except.bind] at entered
  | ok next => exact ⟨next, rfl, by simpa [step, Except.bind] using entered⟩

theorem enterAll_blank {fs : Files} {place last : Location} {parts : List Text}
    (blank : ∀ part ∈ parts, innerComponent? part = none)
    (entered : fs.enterAll place parts = .ok last) : last = place := by
  induction parts generalizing place with
  | nil =>
    cases entered
    rfl
  | cons part parts ih =>
    obtain ⟨next, step, later⟩ := enterAll_cons_eq_ok entered
    obtain ⟨first, rest⟩ := List.forall_mem_cons.mp blank
    rw [enter_blank (enter_eq_ok step).1 first] at step
    cases step
    exact ih rest later

theorem enterAll_named {fs : Files} {place last : Location} {parts : List Text}
    (named : ∀ name ∈ place, IsName name) (plain : ∀ part ∈ parts, '/' ∉ part)
    (entered : fs.enterAll place parts = .ok last) : ∀ name ∈ last, IsName name := by
  induction parts generalizing place with
  | nil =>
    cases entered
    exact named
  | cons part parts ih =>
    obtain ⟨next, step, later⟩ := enterAll_cons_eq_ok entered
    obtain ⟨first, rest⟩ := List.forall_mem_cons.mp plain
    refine ih ?_ rest later
    rcases (enter_eq_ok step).2 with ⟨_, rfl⟩ | rfl | ⟨filled, here, up, rfl⟩
    · exact named
    · exact fun name member => named name ((List.dropLast_sublist place).subset member)
    · intro name member
      rcases List.mem_append.mp member with earlier | last
      · exact named name earlier
      · rw [List.mem_singleton.mp last]
        exact ⟨filled, here, up, first⟩

theorem IsTree.locate_named {fs : Files} (tree : fs.IsTree) {path : Path} {place : Location}
    (found : fs.locate path = .ok place) : ∀ name ∈ place, IsName name := by
  unfold locate at found
  split at found
  · contradiction
  · refine enterAll_named ?_ (fun _ => notMem_of_mem_splitOn) found
    unfold origin
    split
    · exact nofun
    · exact tree.named

/-- A file is found by its name in a directory. -/
theorem IsTree.locate_file {fs : Files} (tree : fs.IsTree) {path : Path} {place : Location}
    (found : fs.locate path = .ok place) (file : fs.isDirectory place = false) :
    ∃ front name, path.text.splitOn '/' = front ++ [name] ∧ IsName name ∧
      fs.enterAll (fs.origin path) front = .ok place.dropLast ∧
      fs.isDirectory place.dropLast = true := by
  unfold locate at found
  split at found
  · contradiction
  · obtain ⟨front, name, parts⟩ :=
      (List.eq_nil_or_concat (path.text.splitOn '/')).resolve_left (List.splitOnP_ne_nil _ _)
    rw [List.concat_eq_append] at parts
    rw [parts] at found
    obtain ⟨directory, front_ok, last⟩ := enterAll_append_eq_ok found
    obtain ⟨next, step, done⟩ := enterAll_cons_eq_ok last
    cases done
    obtain ⟨inside, known⟩ := enter_eq_ok step
    have plain : '/' ∉ name := by
      have member : name ∈ path.text.splitOn '/' := by simp [parts]
      exact notMem_of_mem_splitOn member
    -- Staying in a directory or leaving it leads to a directory, never to a file.
    rcases known with ⟨_, rfl⟩ | rfl | ⟨filled, here, up, rfl⟩
    · exact absurd inside (by simp [file])
    · exact absurd (tree.parent inside) (by simp [file])
    · refine ⟨front, name, parts, ⟨filled, here, up, plain⟩, ?_, ?_⟩
      · rwa [List.dropLast_concat]
      · rwa [List.dropLast_concat]

theorem locate_eq {fs : Files} {path : Path} (filled : path.text ≠ []) :
    fs.locate path = fs.enterAll (fs.origin path) (path.text.splitOn '/') := by
  simp [locate, filled]

/-- What is spelled from the directory of a file is found from the place above the file. -/
theorem IsTree.locate_join {fs : Files} (tree : fs.IsTree) {path target : Path} {place : Location}
    (found : fs.locate path = .ok place) (file : fs.isDirectory place = false)
    (relative : target.isAbsolute = false) (filled : target.text ≠ []) :
    fs.locate (path.directory.join target) =
      fs.enterAll place.dropLast (target.text.splitOn '/') := by
  obtain ⟨front, name, parts, named, entered, inside⟩ := tree.locate_file found file
  cases front with
  | nil =>
    obtain ⟨single, directory⟩ := directory_single parts named
    have above : fs.origin path = place.dropLast := Except.ok.inj entered
    have here : (⟨[]⟩ : Path).join target = target := by simp [join]
    rw [directory, here, locate_eq filled, ← above]
    simp [origin, relative, single]
  | cons first rest =>
    rcases directory_eq parts named with
      ⟨directory, rfl, blank⟩ | ⟨front, part, back, whole, inner, blank, directory⟩
    · have absolute := (isAbsolute_iff parts (List.concat_ne_nil name rest)).mpr rfl
      have root : place.dropLast = [] := by
        have all := enterAll_blank (List.forall_mem_cons.mpr ⟨by decide, blank⟩) entered
        simpa [origin, absolute] using all
      have joined : (⟨['/']⟩ : Path).join target = ⟨'/' :: target.text⟩ := by
        simp [join, relative]
      have start : fs.enter [] [] = .ok [] := enter_blank rfl rfl
      have split : ('/' :: target.text).splitOn '/' = [] :: target.text.splitOn '/' :=
        splitOn_append '/' [] target.text
      rw [directory, joined, locate_eq (List.cons_ne_nil _ _), root, split]
      simp [origin, isAbsolute, enterAll, start]
    · have plain : ∀ other ∈ front ++ [part], '/' ∉ other := by
        intro other member
        have listed : other ∈ path.text.splitOn '/' := by
          rw [parts, whole]
          simp only [List.mem_append, List.mem_cons, List.not_mem_nil, or_false] at member ⊢
          tauto
        exact notMem_of_mem_splitOn listed
      have text : path.text =
          joined '/' (front ++ [part]) ++ '/' :: joined '/' (back ++ [name]) := by
        have shape : first :: (rest ++ [name]) = (front ++ [part]) ++ (back ++ [name]) := by
          rw [← List.cons_append, whole]
          simp
        have spelled : path.text = joined '/' (first :: (rest ++ [name])) := text_of_parts parts
        rw [spelled, shape]
        exact joined_append '/' (List.concat_ne_nil part front) (List.concat_ne_nil name back)
      have joins := join_relative (a := path.directory) relative (congrArg Path.text directory)
        inner (plain part (by simp))
      have split : (joined '/' (front ++ [part]) ++ '/' :: target.text).splitOn '/' =
          front ++ [part] ++ target.text.splitOn '/' := by
        rw [splitOn_append, List.splitOn_intercalate '/' plain (List.concat_ne_nil part front)]
      have origin : fs.origin ⟨joined '/' (front ++ [part]) ++ '/' :: target.text⟩ =
          fs.origin path := by
        simp only [origin, isAbsolute, text, List.head?_append, List.head?_cons]
      -- The parts behind the directory stay where they are.
      rw [whole, List.append_cons] at entered
      obtain ⟨next, above, stay⟩ := enterAll_append_eq_ok entered
      have same := enterAll_blank blank stay
      rw [joins, directory, locate_eq (by simp), origin, split, enterAll_append, above, same]
      rfl

end Files
end ColorTheme
