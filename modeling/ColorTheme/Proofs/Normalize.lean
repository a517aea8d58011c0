import ColorTheme.Proofs.Path
import Mathlib.Data.List.DropRight

/-!
Paths as directions. A path leads some levels up and then down by names. Folding `.` and `..` by
their spelling keeps the names, but of the levels up only whether their number is odd, because a
second `..` is folded with the first one. -/
namespace ColorTheme.Path

/-- Where a component leads from a place; nothing is above the root. -/
def Component.follow (place : Location) : Component → Location
  | .root => []
  | .here => place
  | .up => place.dropLast
  | .name text => place ++ [text]

def walk (place : Location) (components : List Component) : Location :=
  components.foldl Component.follow place

/-- Levels up, and the names that lead down from there. -/
structure Course where
  above : Nat := 0
  below : List Text := []
deriving DecidableEq, Repr

namespace Course

/-- A `..` takes back the last name before it, or leads up where there is none. -/
def step (course : Course) : Component → Course
  | .up =>
    if course.below = [] then { course with above := course.above + 1 }
    else { course with below := course.below.dropLast }
  | .name text => { course with below := course.below ++ [text] }
  | .root => course
  | .here => course

def lead (course : Course) (place : Location) : Location :=
  place.rdrop course.above ++ course.below

end Course

/-- The course of a path, from the root if the path is absolute. -/
def course (p : Path) : Course := p.components.foldl Course.step {}

section Components

/-- A component behind the root. -/
def Inner (c : Component) : Prop := c ≠ .root ∧ ∀ text, c = .name text → IsName text

theorem inner_of_part {part : Text} {c : Component} (plain : '/' ∉ part)
    (meaning : innerComponent? part = some c) : Inner c := by
  unfold innerComponent? at meaning
  split at meaning
  · contradiction
  · rename_i other
    rw [Bool.or_eq_true, not_or] at other
    split at meaning
    · cases meaning
      exact ⟨nofun, nofun⟩
    · rename_i down
      cases meaning
      refine ⟨nofun, fun text same => ?_⟩
      cases same
      exact ⟨by simpa using other.1, by simpa using other.2, down, plain⟩

theorem partsFrom_meanings (offset : Nat) (parts : List Text) :
    (innerEnds offset parts).map Prod.fst = parts.filterMap innerComponent? := by
  induction parts generalizing offset with
  | nil => rfl
  | cons part parts ih =>
    have later := ih (offset + part.length + 1)
    cases meaning : innerComponent? part with
    | none => simpa [innerEnds, partsFrom, meaning] using later
    | some c => simpa [innerEnds, partsFrom, meaning] using later

theorem components_eq {p : Path} {first : Text} {rest : List Text}
    (parts : p.text.splitOn '/' = first :: rest) :
    p.components = (if p.isAbsolute then [.root] else if first = "." then [.here]
      else (innerComponent? first).toList) ++ rest.filterMap innerComponent? := by
  have meanings := partsFrom_meanings (first.length + 1) rest
  simp only [components, componentEnds, parts, partsFrom, Nat.zero_add]
  rw [innerEnds] at meanings
  split
  · simp [meanings]
  · split
    · simp [meanings]
    · cases meaning : innerComponent? first with
      | none => simp [meaning, meanings]
      | some c => simp [meaning, meanings]

theorem exists_inner (p : Path) : ∃ inner, (∀ c ∈ inner, Inner c) ∧
    p.components = (if p.isAbsolute then [.root] else []) ++ inner := by
  obtain ⟨first, rest, parts⟩ : ∃ first rest, p.text.splitOn '/' = first :: rest :=
    List.exists_cons_of_ne_nil (List.splitOnP_ne_nil _ _)
  have plain : ∀ part ∈ first :: rest, '/' ∉ part := by
    rw [← parts]
    exact fun part => notMem_of_mem_splitOn
  have later : ∀ c ∈ rest.filterMap innerComponent?, Inner c := by
    intro c member
    obtain ⟨part, listed, meaning⟩ := List.mem_filterMap.mp member
    exact inner_of_part (plain part (List.mem_cons_of_mem first listed)) meaning
  rw [components_eq parts]
  split
  · exact ⟨_, later, rfl⟩
  · split
    · refine ⟨.here :: rest.filterMap innerComponent?, ?_, rfl⟩
      exact List.forall_mem_cons.mpr ⟨⟨nofun, nofun⟩, later⟩
    · refine ⟨(innerComponent? first).toList ++ rest.filterMap innerComponent?, ?_, rfl⟩
      intro c member
      rcases List.mem_append.mp member with front | behind
      · exact inner_of_part (plain first List.mem_cons_self) (Option.mem_toList.mp front)
      · exact later c behind

end Components

section Walk

theorem rdrop_dropLast (place : Location) (n : Nat) :
    (place.rdrop n).dropLast = place.rdrop (n + 1) := by
  simp only [List.rdrop_eq_reverse_drop_reverse, List.dropLast_reverse, List.tail_drop]

theorem Course.lead_step {c : Component} (inner : c ≠ .root) (course : Course) (place : Location) :
    (course.step c).lead place = c.follow (course.lead place) := by
  cases c with
  | root => contradiction
  | here => rfl
  | name text => simp [step, lead, Component.follow]
  | up =>
    by_cases empty : course.below = []
    · simp [step, lead, Component.follow, empty, rdrop_dropLast]
    · simp [step, lead, Component.follow, empty, List.dropLast_append_of_ne_nil]

theorem Course.walk_lead {components : List Component} (inner : ∀ c ∈ components, Inner c)
    (course : Course) (place : Location) :
    walk (course.lead place) components = (components.foldl Course.step course).lead place := by
  induction components generalizing course with
  | nil => rfl
  | cons c components ih =>
    obtain ⟨first, rest⟩ := List.forall_mem_cons.mp inner
    rw [List.foldl_cons, ← ih rest, course.lead_step first.1]
    rfl

/-- A path is walked along its course, from the root if it is absolute. -/
theorem walk_components (p : Path) (place : Location) :
    walk place p.components = p.course.lead (if p.isAbsolute then [] else place) := by
  obtain ⟨inner, plain, known⟩ := p.exists_inner
  have along := fun place => Course.walk_lead plain {} place
  simp only [course, known]
  by_cases absolute : p.isAbsolute = true
  · simpa [absolute, walk, Component.follow, Course.step, Course.lead] using along []
  · simpa [absolute, Course.lead] using along place

end Walk

section Spelled

/-- A part that means something wherever it stands. -/
def Solid (part : Text) : Prop := part ≠ [] ∧ part ≠ ['.'] ∧ '/' ∉ part

instance (part : Text) : Decidable (Solid part) := inferInstanceAs (Decidable (_ ∧ _ ∧ _))

def partComponent (part : Text) : Component := if part = ".." then .up else .name part

/-- Parts as a path, behind the root or not. -/
def spelled (rooted : Bool) (parts : List Text) : Path :=
  ⟨(if rooted then ['/'] else []) ++ joined '/' parts⟩

theorem Solid.meaning {part : Text} (solid : Solid part) :
    innerComponent? part = some (partComponent part) := by
  obtain ⟨filled, here, _⟩ := solid
  simp only [innerComponent?, partComponent, apply_ite some]
  rw [if_neg (by simpa using ⟨filled, here⟩)]

theorem spelled_concat (rooted : Bool) {parts : List Text} (more : parts ≠ []) (part : Text) :
    (spelled rooted (parts ++ [part])).text = (spelled rooted parts).text ++ '/' :: part := by
  rw [spelled, joined_append '/' more (List.cons_ne_nil part [])]
  simp [spelled, joined]

theorem spelled_text (rooted : Bool) {parts : List Text} (more : parts ≠ []) :
    (spelled rooted parts).text = joined '/' ((if rooted then [[]] else []) ++ parts) := by
  cases rooted with
  | false => simp [spelled]
  | true => simp [spelled, joined_cons '/' [] more]

variable {parts : List Text} (solid : ∀ part ∈ parts, Solid part)

include solid

theorem spelled_isAbsolute (rooted : Bool) : (spelled rooted parts).isAbsolute = rooted := by
  cases rooted with
  | true => rfl
  | false =>
    cases parts with
    | nil => rfl
    | cons first rest =>
      obtain ⟨filled, _, plain⟩ := solid first List.mem_cons_self
      obtain ⟨c, tail, rfl⟩ := List.exists_cons_of_ne_nil filled
      have other : c ≠ '/' := fun same => plain (same ▸ List.mem_cons_self)
      cases rest <;> simp [spelled, isAbsolute, other]

theorem spelled_componentEnds (rooted : Bool) : (spelled rooted parts).componentEnds =
    (if rooted then [(.root, 1)] else []) ++ innerEnds (if rooted then 1 else 0) parts := by
  by_cases empty : parts = []
  · subst empty
    cases rooted <;> rfl
  · have split : (spelled rooted parts).text.splitOn '/' =
        (if rooted then [[]] else []) ++ parts := by
      rw [spelled_text rooted empty]
      refine List.splitOn_intercalate '/' (fun part member => ?_) (by simp [empty])
      rcases List.mem_append.mp member with front | behind
      · cases rooted <;> simp_all
      · exact (solid part behind).2.2
    have absolute := spelled_isAbsolute solid rooted
    obtain ⟨first, rest, rfl⟩ := List.exists_cons_of_ne_nil empty
    have head := (solid first List.mem_cons_self).2.1
    cases rooted with
    | true => simp [componentEnds, split, absolute, partsFrom, innerEnds]
    | false => simp [componentEnds, split, absolute, partsFrom, innerEnds, head]

theorem spelled_components (rooted : Bool) : (spelled rooted parts).components =
    (if rooted then [.root] else []) ++ parts.map partComponent := by
  have meanings : parts.filterMap innerComponent? = parts.map partComponent := by
    rw [← List.filterMap_eq_map]
    exact List.filterMap_congr fun part member => (solid part member).meaning
  rw [components, spelled_componentEnds solid, List.map_append, partsFrom_meanings, meanings]
  cases rooted <;> rfl

theorem spelled_join (rooted : Bool) {part : Text} (next : Solid part) :
    (spelled rooted parts).join ⟨part⟩ = spelled rooted (parts ++ [part]) := by
  have relative : isAbsolute ⟨part⟩ = false := by
    simpa [spelled] using spelled_isAbsolute (List.forall_mem_singleton.mpr next) false
  rcases List.eq_nil_or_concat parts with rfl | ⟨front, last, rfl⟩
  · cases rooted with
    | true => simp [spelled, join, relative, joined]
    | false => simp [spelled, join, joined]
  · rw [List.concat_eq_append] at solid ⊢
    have ending := solid last (by simp)
    have text := spelled_text rooted (List.concat_ne_nil last front)
    rw [← List.append_assoc] at text
    rw [join_relative relative text ending.1 ending.2.2,
      ← spelled_concat rooted (List.concat_ne_nil last front)]

theorem spelled_last (rooted : Bool) : rooted = false ∧ parts = [] ∨
    ∃ ends c, (spelled rooted parts).componentEnds =
      ends ++ [(c, (spelled rooted parts).text.length)] := by
  rw [spelled_componentEnds solid]
  rcases List.eq_nil_or_concat parts with rfl | ⟨front, last, rfl⟩
  · cases rooted with
    | true => exact .inr ⟨[], .root, rfl⟩
    | false => exact .inl ⟨rfl, rfl⟩
  · rw [List.concat_eq_append] at solid ⊢
    have length : (spelled rooted (front ++ [last])).text.length =
        (if rooted then 1 else 0) + (joined '/' (front ++ [last])).length := by
      cases rooted <;> simp [spelled, Nat.add_comm]
    rw [innerEnds_concat, (solid last (by simp)).meaning, ← List.append_assoc, length]
    exact .inr ⟨_, partComponent last, rfl⟩

theorem spelled_parent (rooted : Bool) {part : Text} (next : Solid part) :
    (spelled rooted (parts ++ [part])).parent? = some (spelled rooted parts) := by
  have both : ∀ other ∈ parts ++ [part], Solid other :=
    List.forall_mem_append.mpr ⟨solid, List.forall_mem_singleton.mpr next⟩
  have ends := spelled_componentEnds both rooted
  rw [innerEnds_concat, ← List.append_assoc, ← spelled_componentEnds solid, next.meaning] at ends
  rcases spelled_last solid rooted with ⟨rfl, rfl⟩ | ⟨front, c, known⟩
  · have single : (spelled false ([] ++ [part])).componentEnds =
        [(partComponent part, 0 + (joined '/' [part]).length)] := ends
    by_cases up : part = ".."
    · rw [parent?, single, partComponent, if_pos up]
      rfl
    · rw [parent?, single, partComponent, if_neg up]
      rfl
  · have cut : (spelled rooted (parts ++ [part])).text.take (spelled rooted parts).text.length =
        (spelled rooted parts).text := by
      by_cases empty : parts = []
      · simp [empty, spelled, joined]
      · rw [spelled_concat rooted empty, List.take_left]
    rw [known] at ends
    simp [parent?, ends, cut]

end Spelled

theorem spelled_root (rooted : Bool) : (spelled rooted []).parent? = none := by
  cases rooted <;> rfl

section Fold

/-- What the fold does with one more component. -/
def fold (folded : Path) : Component → Path
  | .here => folded
  | .up => folded.parent?.getD (folded.join ⟨".."⟩)
  | .root => folded.join ⟨"/"⟩
  | .name text => folded.join ⟨text⟩

theorem normalize_fold (p : Path) : p.normalize = p.components.foldl fold ⟨[]⟩ := by
  unfold normalize
  congr 1
  funext folded c
  cases c <;> rfl

/-- The parts that are left of a course: a second `..` has taken back the first. -/
def Course.parts (course : Course) : List Text :=
  List.replicate (course.above % 2) ['.', '.'] ++ course.below

theorem Course.solid {course : Course} (named : ∀ name ∈ course.below, IsName name) :
    ∀ part ∈ course.parts, Solid part := by
  intro part member
  rcases List.mem_append.mp member with up | down
  · rw [List.eq_of_mem_replicate up]
    decide
  · obtain ⟨filled, here, _, plain⟩ := named part down
    exact ⟨filled, here, plain⟩

theorem Course.step_named {course : Course} (named : ∀ name ∈ course.below, IsName name)
    {c : Component} (inner : Inner c) : ∀ name ∈ (course.step c).below, IsName name := by
  cases c with
  | root => exact named
  | here => exact named
  | name text =>
    exact List.forall_mem_append.mpr ⟨named, List.forall_mem_singleton.mpr (inner.2 text rfl)⟩
  | up =>
    by_cases empty : course.below = []
    · simp [step, empty]
    · have less : (course.step .up).below = course.below.dropLast := by simp [step, empty]
      rw [less]
      exact fun name member => named name (List.mem_of_mem_dropLast member)

theorem fold_spelled (rooted : Bool) {course : Course} (named : ∀ name ∈ course.below, IsName name)
    {c : Component} (inner : Inner c) :
    fold (spelled rooted course.parts) c = spelled rooted (course.step c).parts := by
  have solid := Course.solid named
  cases c with
  | root => exact absurd rfl inner.1
  | here => rfl
  | name text =>
    have next : Solid text := by
      obtain ⟨filled, here, _, plain⟩ := inner.2 text rfl
      exact ⟨filled, here, plain⟩
    rw [fold, spelled_join solid rooted next]
    simp [Course.parts, Course.step]
  | up =>
    rcases List.eq_nil_or_concat course.below with empty | ⟨front, last, ending⟩
    · rcases Nat.mod_two_eq_zero_or_one course.above with even | odd
      · have parts : course.parts = [] := by simp [Course.parts, empty, even]
        have next : (course.step .up).parts = [['.', '.']] := by
          simp [Course.parts, Course.step, empty, Nat.add_mod, even]
        rw [fold, parts, next, spelled_root]
        exact spelled_join (List.forall_mem_nil _) rooted (by decide)
      · have parts : course.parts = [['.', '.']] := by simp [Course.parts, empty, odd]
        have next : (course.step .up).parts = [] := by
          simp [Course.parts, Course.step, empty, Nat.add_mod, odd]
        have back : (spelled rooted [['.', '.']]).parent? = some (spelled rooted []) :=
          spelled_parent (List.forall_mem_nil _) rooted (by decide)
        rw [fold, parts, next, back]
        rfl
    · rw [List.concat_eq_append] at ending
      have parts : course.parts = (course.step .up).parts ++ [last] := by
        simp [Course.parts, Course.step, ending]
      rw [parts] at solid ⊢
      rw [fold, spelled_parent (fun part member => solid part (List.mem_append_left _ member))
        rooted (solid last (by simp))]
      rfl

theorem foldl_spelled (rooted : Bool) {components : List Component}
    (inner : ∀ c ∈ components, Inner c) {course : Course}
    (named : ∀ name ∈ course.below, IsName name) :
    components.foldl fold (spelled rooted course.parts) =
      spelled rooted (components.foldl Course.step course).parts ∧
    ∀ name ∈ (components.foldl Course.step course).below, IsName name := by
  induction components generalizing course with
  | nil => exact ⟨rfl, named⟩
  | cons c components ih =>
    obtain ⟨first, rest⟩ := List.forall_mem_cons.mp inner
    rw [List.foldl_cons, List.foldl_cons, fold_spelled rooted named first]
    exact ih rest (Course.step_named named first)

/-- A normalized path is spelled by the parts that are left of the course. -/
theorem normalize_eq (p : Path) : p.normalize = spelled p.isAbsolute p.course.parts ∧
    ∀ name ∈ p.course.below, IsName name := by
  obtain ⟨inner, plain, known⟩ := p.exists_inner
  have start : ∀ name ∈ ({} : Course).below, IsName name := nofun
  have along := fun rooted => foldl_spelled rooted plain start
  rw [normalize_fold, course, known]
  cases p.isAbsolute with
  | true => exact along true
  | false => exact along false

theorem foldl_names (course : Course) (names : List Text) :
    (names.map Component.name).foldl Course.step course =
      { course with below := course.below ++ names } := by
  induction names generalizing course with
  | nil => simp
  | cons name names ih => simp [ih, Course.step]

theorem foldl_ups (n : Nat) :
    (List.replicate n Component.up).foldl Course.step {} = { above := n } := by
  induction n with
  | zero => rfl
  | succ n ih => simp [List.replicate_succ', ih, Course.step]

/-- What is left of the levels up is whether their number is odd. -/
theorem course_normalize (p : Path) :
    p.normalize.course = { p.course with above := p.course.above % 2 } := by
  obtain ⟨whole, named⟩ := p.normalize_eq
  have parts : p.course.parts.map partComponent =
      List.replicate (p.course.above % 2) .up ++ p.course.below.map .name := by
    have names : p.course.below.map partComponent = p.course.below.map .name :=
      List.map_congr_left fun name member => if_neg (named name member).2.2.1
    simp only [Course.parts, List.map_append, List.map_replicate, names]
    rfl
  rw [whole, course, spelled_components (Course.solid named), parts]
  cases p.isAbsolute with
  | true => simp [Course.step, foldl_ups, foldl_names]
  | false => simp [foldl_ups, foldl_names]

end Fold

theorem isAbsolute_normalize (p : Path) : p.normalize.isAbsolute = p.isAbsolute := by
  obtain ⟨whole, named⟩ := p.normalize_eq
  rw [whole, spelled_isAbsolute (Course.solid named)]

theorem walk_normalize_of_near {p : Path} (near : p.isAbsolute = true ∨ p.course.above ≤ 1)
    (place : Location) : walk place p.normalize.components = walk place p.components := by
  simp only [walk_components, isAbsolute_normalize, course_normalize, Course.lead]
  rcases near with absolute | near
  · simp [absolute, List.rdrop]
  · rw [Nat.mod_eq_of_lt (Nat.lt_succ_of_le near)]

/-- Normalizing keeps where a path leads, from every place, just if the path is absolute or leads
at most one level up. -/
theorem walk_normalize (p : Path) :
    (∀ place, walk place p.normalize.components = walk place p.components) ↔
      p.isAbsolute = true ∨ p.course.above ≤ 1 := by
  refine ⟨fun same => ?_, walk_normalize_of_near⟩
  simp only [walk_components, isAbsolute_normalize, course_normalize, Course.lead,
    List.append_cancel_right_eq] at same
  cases absolute : p.isAbsolute with
  | true => exact .inl rfl
  | false =>
    rw [absolute] at same
    -- From a place just as deep as the path leads up, it leads to the root.
    have deep := congrArg List.length (same (List.replicate p.course.above []))
    simp only [Bool.false_eq_true, if_false, List.rdrop, List.length_take,
      List.length_replicate] at deep
    right
    omega

/-- Two levels up are folded to none. -/
theorem walk_normalize_two_levels : ¬ ∀ (p : Path) (place : Location),
    walk place p.normalize.components = walk place p.components := by
  intro same
  have met := same ⟨"../../a.less"⟩ ["b", "c"]
  revert met
  decide +kernel

end ColorTheme.Path

namespace ColorTheme.Files

open ColorTheme.Path

theorem enter_follow {fs : Files} {place next : Location} {part : Text}
    (entered : fs.enter place part = .ok next) :
    next = Path.walk place (innerComponent? part).toList := by
  simp only [enter] at entered
  split at entered
  · contradiction
  · split at entered
    · rename_i blank
      cases entered
      simp only [innerComponent?, if_pos blank]
      rfl
    · rename_i plain
      split at entered
      · rename_i up
        cases entered
        simp only [innerComponent?, if_neg plain, if_pos up]
        rfl
      · rename_i down
        split at entered
        · cases entered
          simp only [innerComponent?, if_neg plain, if_neg down]
          rfl
        · contradiction

theorem enterAll_walk {fs : Files} {place last : Location} {parts : List Text}
    (entered : fs.enterAll place parts = .ok last) :
    last = Path.walk place (parts.filterMap innerComponent?) := by
  induction parts generalizing place with
  | nil =>
    cases entered
    rfl
  | cons part parts ih =>
    obtain ⟨next, step, later⟩ := enterAll_cons_eq_ok entered
    have split : (part :: parts).filterMap innerComponent? =
        (innerComponent? part).toList ++ parts.filterMap innerComponent? := by
      cases meaning : innerComponent? part <;> simp [meaning]
    rw [ih later, enter_follow step, split, Path.walk, Path.walk, Path.walk, List.foldl_append]

/-- A path that can be located leads where its components lead. -/
theorem locate_walk {fs : Files} {path : Path} {place : Location}
    (found : fs.locate path = .ok place) : place = Path.walk fs.current path.components := by
  unfold locate at found
  split at found
  · contradiction
  · obtain ⟨first, rest, parts⟩ : ∃ first rest, path.text.splitOn '/' = first :: rest :=
      List.exists_cons_of_ne_nil (List.splitOnP_ne_nil _ _)
    rw [parts] at found
    have split : (first :: rest).filterMap innerComponent? =
        (innerComponent? first).toList ++ rest.filterMap innerComponent? := by
      cases meaning : innerComponent? first <;> simp [meaning]
    rw [enterAll_walk found, components_eq parts, split]
    unfold origin
    split
    · rename_i absolute
      have root : first = [] := by
        by_cases more : rest = []
        · subst more
          have slash : '/' ∈ first := by
            have text : path.text = first := by simpa [joined] using text_of_parts parts
            rw [isAbsolute, text] at absolute
            exact List.mem_of_head? (of_decide_eq_true absolute)
          exact absurd slash (notMem_first parts)
        · exact (isAbsolute_iff parts more).mp absolute
      subst root
      rfl
    · split
      · rename_i here
        subst here
        rfl
      · rfl

/-- Both spellings of a path name one file, if both can be located. -/
theorem locate_normalize {fs : Files} {path : Path} {place other : Location}
    (near : path.isAbsolute = true ∨ path.course.above ≤ 1) (found : fs.locate path = .ok place)
    (again : fs.locate path.normalize = .ok other) : other = place := by
  rw [locate_walk found, locate_walk again, walk_normalize_of_near near]

end ColorTheme.Files
