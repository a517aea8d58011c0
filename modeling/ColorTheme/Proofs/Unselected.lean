import ColorTheme.Proofs.Closed
import ColorTheme.Proofs.Reassembly

/-!
What reassembly does to the variables that are not selected. A removal takes out whatever stands
from the heading of a selected variable to the last semicolon of the line. The other variables keep
their declarations if no removal begins within a declaration and none reaches over one of them. -/
namespace ColorTheme.Substitution

open Variable

variable {name : Text}

/-- How a declaration is spelled that is taken out. -/
def Spelled (name used : Text) : Prop := ∃ spaces value, (∀ c ∈ spaces, c = ' ') ∧ '\n' ∉ value ∧
  used = name ++ (spaces ++ ':' :: (value ++ [';']))

/-- A text whose first line holds no semicolon. -/
def Unstopped (text : Text) : Prop := ';' ∉ text.takeWhile (· ≠ '\n')

theorem declarationOf_append {before : Option Char} {used left : Text} :
    declarationOf name before (used ++ left) = some ((), left) ↔
      Spelled name used ∧ Unstopped left := by
  rw [declarationOf_eq_some]
  constructor
  · rintro ⟨spaces, rest, value, blank, whole, cut⟩
    obtain ⟨single, clean, rfl⟩ := (Text.cutLineLast?_iff (by decide)).mp cut
    have spelled : used ++ left = name ++ (spaces ++ ':' :: (value ++ [';'])) ++ left := by
      simpa using whole
    exact ⟨⟨spaces, value, blank, single, List.append_cancel_right spelled⟩, clean⟩
  · rintro ⟨⟨spaces, value, blank, single, rfl⟩, clean⟩
    exact ⟨spaces, value ++ ';' :: left, value, blank, by simp,
      (Text.cutLineLast?_iff (by decide)).mpr ⟨single, clean, rfl⟩⟩

section Spelled

variable {used : Text} (spelled : Spelled name used)

include spelled

theorem Spelled.stop : ∃ front, used = front ++ [';'] := by
  obtain ⟨spaces, value, _, _, rfl⟩ := spelled
  exact ⟨name ++ (spaces ++ ':' :: value), by simp⟩

theorem Spelled.closed : Closed used := by
  obtain ⟨front, rfl⟩ := spelled.stop
  exact closed_stopped front

theorem Spelled.single (named : IsName name) : '\n' ∉ used := by
  obtain ⟨spaces, value, blank, single, rfl⟩ := spelled
  have head : '\n' ∉ name ++ spaces ++ [':'] := (heading_plain named blank).notMem (by decide)
  simp_all

theorem Spelled.extend {more : Text} (single : '\n' ∉ more) :
    Spelled name (used ++ (more ++ [';'])) := by
  obtain ⟨spaces, value, blank, still, rfl⟩ := spelled
  refine ⟨spaces, value ++ ';' :: more, blank, ?_, by simp⟩
  simp_all

end Spelled

theorem unstopped_append {start rest other : Text} (feed : '\n' ∈ start)
    (clean : Unstopped (start ++ rest)) : Unstopped (start ++ other) := by
  obtain ⟨line, more, rfl, single⟩ := List.eq_append_cons_of_mem feed
  have inner : ∀ c ∈ line, decide (c ≠ '\n') = true := fun c member =>
    decide_eq_true fun same => single (same ▸ member)
  rw [Unstopped, List.append_assoc, List.takeWhile_append_of_pos inner] at clean ⊢
  simpa using clean

theorem unstopped_single {start rest : Text} (single : '\n' ∉ start)
    (clean : Unstopped (start ++ rest)) : ';' ∉ start := by
  have inner : ∀ c ∈ start, decide (c ≠ '\n') = true := fun c member =>
    decide_eq_true fun same => single (same ▸ member)
  intro stop
  rw [Unstopped, List.takeWhile_append_of_pos inner] at clean
  exact clean (List.mem_append_left _ stop)

theorem unstopped_front {start rest : Text} (clean : Unstopped (start ++ rest)) :
    Unstopped start := by
  by_cases feed : '\n' ∈ start
  · have alone : Unstopped (start ++ []) := unstopped_append feed clean
    rwa [List.append_nil] at alone
  · exact fun stop => unstopped_single feed clean (List.takeWhile_subset _ stop)

/-- What is taken out ends in front of a text whose first line holds no semicolon. -/
theorem Spelled.within {used rest front left : Text} (spelled : Spelled name used)
    (named : IsName name) (clean : Unstopped left) (whole : used ++ rest = front ++ left) :
    ∃ behind, front = used ++ behind ∧ rest = behind ++ left := by
  rcases List.append_eq_append_iff.mp whole with ⟨behind, split, same⟩ | ⟨beyond, split, same⟩
  · exact ⟨behind, split, same⟩
  · rcases List.eq_nil_or_concat beyond with rfl | ⟨beyond, c, rfl⟩
    · exact ⟨[], by simpa using split.symm, by simpa using same.symm⟩
    · -- It would end with a semicolon on the first line of that text.
      obtain ⟨inner, stopped⟩ := spelled.stop
      rw [List.concat_eq_append] at split same
      rw [split, ← List.append_assoc] at stopped
      obtain ⟨_, last⟩ := List.append_inj' stopped rfl
      obtain rfl : c = ';' := by simpa using last
      have single : '\n' ∉ beyond ++ [';'] := fun member =>
        spelled.single named (split ▸ List.mem_append_right front member)
      rw [same] at clean
      exact absurd (List.mem_append_right beyond List.mem_cons_self) (unstopped_single single clean)

def others (names : List Text) (text : Text) : List Variable :=
  (extract text).filter fun v => !names.contains v.name

/-- Wherever a declaration of one of the names is taken out, nothing that begins in front of it goes
on behind, and no declaration of another name is taken out with it. -/
def Detached (names : List Text) (text : Text) : Prop :=
  ∀ front used left, text = front ++ (used ++ left) → ∀ name ∈ names,
    declarationOf name none (used ++ left) = some ((), left) →
      Closed front ∧ ∀ v ∈ extract used, v.name ∈ names

/-- Whether a text is detached is seen at its places, if what precedes the removals is settled. -/
def Apart (names : List Text) (text : Text) : Prop :=
  ∀ front here, text = front ++ here → ∀ name ∈ names, ∀ hit ∈ declarationOf name none here,
    Settled front ∧
      (extract (here.take (here.length - hit.2.length))).all fun v => names.contains v.name

instance (names : List Text) (text : Text) : Decidable (Apart names text) :=
  decidableDivided text _

variable {names : List Text} {front used left : Text}

theorem others_append (closed : Closed front) (rest : Text) :
    others names (front ++ rest) = others names front ++ others names rest := by
  rw [others, closed, List.filter_append, others, others]

theorem others_own (own : ∀ v ∈ extract used, v.name ∈ names) : others names used = [] :=
  List.filter_eq_nil_iff.mpr fun v member => by simpa using own v member

theorem Apart.detached {text : Text} (apart : Apart names text) : Detached names text := by
  intro front used left split name listed found
  obtain ⟨settled, own⟩ := apart front (used ++ left) split name listed ((), left) found
  have taken : (used ++ left).take ((used ++ left).length - left.length) = used := by simp
  rw [taken] at own
  exact ⟨settled.closed, by simpa using own⟩

section Removed

variable (named : ∀ name ∈ names, IsName name) (detached : Detached names (front ++ (used ++ left)))
  (listed : name ∈ names) (found : declarationOf name none (used ++ left) = some ((), left))

include detached listed found

theorem Detached.others_removed :
    others names (front ++ left) = others names (front ++ (used ++ left)) := by
  obtain ⟨closed, own⟩ := detached front used left rfl name listed found
  have spelled := (declarationOf_append.mp found).1
  rw [others_append closed, others_append closed, others_append spelled.closed, others_own own,
    List.nil_append]

include named

theorem Detached.removed : Detached names (front ++ left) := by
  intro start more rest split other known again
  obtain ⟨closed, own⟩ := detached front used left rfl name listed found
  obtain ⟨spelled, clean⟩ := declarationOf_append.mp found
  obtain ⟨respelled, unstopped⟩ := declarationOf_append.mp again
  rcases List.append_eq_append_iff.mp split with ⟨between, rfl, rfl⟩ | ⟨between, rfl, whole⟩
  · -- The place is behind the removed declaration.
    have place := detached (front ++ (used ++ between)) more rest (by simp) other known again
    have ahead := closed.append spelled.closed
    rw [← List.append_assoc] at place
    exact ⟨closed.append (ahead.of_append place.1), place.2⟩
  · -- The place is in front of it, and what is taken out there does not reach up to it.
    obtain ⟨behind, rfl, rfl⟩ := respelled.within (named other known) clean whole
    by_cases feed : '\n' ∈ behind
    · have place := detached start more (behind ++ (used ++ left)) (by simp) other known
      exact place (declarationOf_append.mpr ⟨respelled, unstopped_append feed unstopped⟩)
    · obtain ⟨inner, rfl⟩ := spelled.stop
      have longer : Spelled other (more ++ (behind ++ inner ++ [';'])) := by
        refine respelled.extend ?_
        rw [List.mem_append, not_or]
        refine ⟨feed, fun member => ?_⟩
        exact spelled.single (named name listed) (List.mem_append_left _ member)
      have place := detached start (more ++ (behind ++ inner ++ [';'])) left (by simp) other known
        (declarationOf_append.mpr ⟨longer, clean⟩)
      refine ⟨place.1, fun v member => place.2 v ?_⟩
      rw [respelled.closed]
      exact List.mem_append_left _ member

end Removed

theorem Detached.feed {text : Text} (detached : Detached names text) :
    Detached names (text ++ ['\n']) := by
  intro front used left split name listed found
  obtain ⟨spelled, clean⟩ := declarationOf_append.mp found
  rcases List.eq_nil_or_concat left with rfl | ⟨left, c, rfl⟩
  · obtain ⟨inner, rfl⟩ := spelled.stop
    rw [List.append_nil, ← List.append_assoc] at split
    obtain ⟨_, last⟩ := List.append_inj' split rfl
    exact absurd last (by decide)
  · rw [List.concat_eq_append, ← List.append_assoc, ← List.append_assoc] at split
    obtain ⟨rfl, _⟩ := List.append_inj' split rfl
    rw [List.concat_eq_append] at clean
    exact detached front used left (List.append_assoc ..) name listed
      (declarationOf_append.mpr ⟨spelled, unstopped_front clean⟩)

section Rounds

variable (named : ∀ name ∈ names, IsName name)

include named

/-- A removal that goes on behind `front` keeps the other declarations. -/
theorem Detached.erase {text : Text} (detached : Detached names (front ++ text))
    (listed : name ∈ names) : Detached names (front ++ Text.erase (declarationOf name) text) ∧
      others names (front ++ Text.erase (declarationOf name) text) =
        others names (front ++ text) := by
  have is := declarationOf_local (named name listed)
  induction text using Text.search_induction is generalizing front with
  | nil => exact ⟨detached, rfl⟩
  | char c rest missed ih =>
    rw [Text.erase_char is missed]
    have step := ih (show Detached names (front ++ [c] ++ rest) by simpa using detached)
    simpa using step
  | found here value left found ih =>
    obtain ⟨c, used, rfl⟩ := is.covers found
    rw [Text.erase_match is found]
    obtain ⟨still, same⟩ := ih (detached.removed named listed found)
    exact ⟨still, same.trans (detached.others_removed listed found)⟩

/-- However many of the names are removed, the other declarations stay as they are. -/
theorem Detached.rounds {text : Text} (detached : Detached names text) {done : List Text}
    (part : done ⊆ names) : Detached names (withoutDeclarations done text) ∧
      others names (withoutDeclarations done text) = others names text := by
  induction done with
  | nil => exact ⟨detached, rfl⟩
  | cons name done ih =>
    obtain ⟨listed, later⟩ := List.cons_subset.mp part
    obtain ⟨still, same⟩ := ih later
    have step := Detached.erase named (show Detached names ([] ++ _) from still) listed
    rw [withoutDeclarations_cons]
    refine ⟨step.1.feed, ?_⟩
    rw [← same, others, extract_append_clean (by decide)]
    exact step.2

end Rounds

section Reassembled

variable {symbols : Bindings}

theorem others_declarations {done : List Text} (own : ∀ name ∈ done,
    ∀ v ∈ extract (symbol symbols name).render, v.name ∈ names) (rest : Text) :
    others names (declarations symbols done ++ rest) = others names rest := by
  induction done with
  | nil => rfl
  | cons name done ih =>
    obtain ⟨first, later⟩ := List.forall_mem_cons.mp own
    have line : Closed (symbol symbols name).render := closed_stopped _
    have feed : Closed "\n" := fun rest => Text.findAll_char declared_local rfl
    rw [declarations_cons, List.append_assoc, others_append (line.append feed), ih later,
      others_append line, others_own first]
    rfl

/-- Whatever is reassembled, the declarations of the names that are not selected are those that the
removals leave of the source. If the declarations that are removed are detached, they are those of
the source, in order and with their values. -/
theorem others_reassemble (css defaultTheme : Text) {selected : List Text}
    (named : ∀ name ∈ selected, IsName name) (distinct : selected.Nodup)
    (silent : ∀ name ∈ selected, ∀ other ∈ selected,
      speaksOf name (symbol symbols other).value = false)
    (own : ∀ name ∈ selected, ∀ v ∈ extract (symbol symbols name).render, v.name ∈ selected) :
    let source := Text.trim css ++ "\n" ++ defaultTheme
    let left := others selected (reassemble css defaultTheme selected symbols)
    left = others selected (withoutDeclarations selected source) ∧
      (Detached selected source → left = others selected source) := by
  intro source left
  have kept : left = others selected (withoutDeclarations selected source) := by
    rw [← others_declarations own, ← reassemble_eq named distinct silent css defaultTheme]
  exact ⟨kept, fun detached => kept.trans (detached.rounds named (List.Subset.refl selected)).2⟩

end Reassembled

theorem others_reassemble_sample :
    let symbols := Bindings.parse "@primary-color: #1890ff; @link-color: @primary-color;"
    let selected : List Text := ["@primary-color", "@link-color"]
    let source := Text.trim sampleSheet ++ "\n" ++ sampleTheme
    (∀ name ∈ selected, IsName name) ∧ selected.Nodup ∧
      (∀ name ∈ selected, ∀ other ∈ selected,
        speaksOf name (symbol symbols other).value = false) ∧
      (∀ name ∈ selected, ∀ v ∈ extract (symbol symbols name).render, v.name ∈ selected) ∧
      Detached selected source ∧
      others selected (reassemble sampleSheet sampleTheme selected symbols) =
        [⟨"@text-color", "#000"⟩] := by
  intro symbols selected source
  have declared : ∀ name ∈ selected, ∃ v ∈ extract source, v.name = name := by decide +kernel
  have named : ∀ name ∈ selected, IsName name := by
    intro name member
    obtain ⟨v, listed, rfl⟩ := declared name member
    exact extract_name listed
  have distinct : selected.Nodup := by decide +kernel
  have silent : ∀ name ∈ selected, ∀ other ∈ selected,
      speaksOf name (symbol symbols other).value = false := by decide +kernel
  have own : ∀ name ∈ selected, ∀ v ∈ extract (symbol symbols name).render, v.name ∈ selected := by
    decide +kernel
  have apart : Apart selected source := by decide +kernel
  have rest : others selected source = [⟨"@text-color", "#000"⟩] := by decide +kernel
  have kept := others_reassemble sampleSheet sampleTheme named distinct silent own
  exact ⟨named, distinct, silent, own, apart.detached, (kept.2 apart.detached).trans rest⟩

/-- A removal takes out all declarations up to the last semicolon of the line, whatever they
declare. -/
theorem others_reassemble_line :
    ¬ ∀ (css defaultTheme : Text) (symbols : Bindings) (selected : List Text),
      (∀ name ∈ selected, IsName name) → selected.Nodup →
      (∀ name ∈ selected, ∀ other, IsName other →
        ¬ (other ++ (":" : Text)) <:+: (symbol symbols name).value) →
      others selected (reassemble css defaultTheme selected symbols) =
        others selected (Text.trim css ++ "\n" ++ defaultTheme) := by
  intro kept
  have letter : Text.isWordOrDash 'a' = true := by decide
  have named : ∀ name ∈ ["@a".toList], IsName name := fun name member =>
    List.mem_singleton.mp member ▸ ⟨['a'], rfl, by decide, by simpa using letter⟩
  have silent : ∀ name ∈ ["@a".toList], ∀ other, IsName other →
      ¬ (other ++ (":" : Text)) <:+: (symbol (Bindings.parse "@a: #111;") name).value := by
    intro name member other _ speaks
    have plain : ∀ name ∈ ["@a".toList],
        ':' ∉ (symbol (Bindings.parse "@a: #111;") name).value := by decide +kernel
    exact plain name member (speaks.subset (List.mem_append_right other List.mem_cons_self))
  have all := kept [] "@a: #111; @b: #222;" _ _ named (by decide) silent
  revert all
  decide +kernel

end ColorTheme.Substitution
