import ColorTheme.Proofs.Css.Parser
import ColorTheme.Proofs.Minify

/-!
The compact form of a sheet that was written from its rules. Compaction puts the declarations of a
rule on one line with its selector and keeps the gaps inside a line, so that the compact form is
read as the same rules. -/
namespace ColorTheme

namespace Css

def Declaration.compact (d : Declaration) : Text := d.property ++ ": " ++ d.value ++ ";"

/-- What stands between the braces; a block without declarations keeps its line end. -/
def Rule.compactBody (r : Rule) : Text :=
  if r.declarations = [] then "\n" else r.declarations.flatMap Declaration.compact

def Rule.compact (r : Rule) : Text := r.selector ++ " \x7b" ++ r.compactBody ++ "\x7d\n"

theorem Body.compact {ds : List Declaration} (legible : ∀ d ∈ ds, d.Legible) :
    Body (ds.flatMap Declaration.compact) ds := by
  induction ds with
  | nil => exact Body.nil
  | cons d ds ih =>
    obtain ⟨first, legible⟩ := List.forall_mem_cons.mp legible
    exact (ih legible).cons first

theorem Rule.Legible.compact {r : Rule} (legible : r.Legible) :
    (Node.rule r).Written r.compact := by
  apply Rule.written legible
  unfold Rule.compactBody
  split
  · rename_i empty
    rw [empty]
    have feed : ∀ c ∈ ("\n" : Text), isSpace c = true := List.all_eq_true.mp (by decide)
    exact Body.nil.gap feed rfl
  · exact Body.compact legible.declarations

theorem Rule.mem_render {r : Rule} {c : Char} (member : c ∈ r.render) : c ∈ r.selector ∨
    (∃ d ∈ r.declarations, c ∈ d.property ∨ c ∈ d.value) ∨ c ∈ (" \x7b\n\x7d:;" : Text) := by
  have signs : ∀ {part : Text}, part ⊆ " \x7b\n\x7d:;" → c ∈ part → c ∈ r.selector ∨
      (∃ d ∈ r.declarations, c ∈ d.property ∨ c ∈ d.value) ∨ c ∈ (" \x7b\n\x7d:;" : Text) :=
    fun known inside => .inr (.inr (known inside))
  simp only [Rule.render, List.mem_append, List.mem_flatMap, Declaration.render] at member
  rcases member with ((selector | opening) | ⟨d, inside, written⟩) | closing
  · exact .inl selector
  · exact signs (by decide) opening
  · rcases written with (((indent | property) | colon) | value) | ending
    · exact signs (by decide) indent
    · exact .inr (.inl ⟨d, inside, .inl property⟩)
    · exact signs (by decide) colon
    · exact .inr (.inl ⟨d, inside, .inr value⟩)
    · exact signs (by decide) ending
  · exact signs (by decide) closing

end Css

namespace Minify

open Text Css

def Flat (text : Text) : Prop := ∀ c ∈ text, c ≠ '\n' ∧ c ≠ '\r'

instance (text : Text) : Decidable (Flat text) := List.decidableBAll _ text

theorem flat_nil : Flat [] := List.forall_mem_nil _

theorem Flat.append {front back : Text} (ahead : Flat front) (behind : Flat back) :
    Flat (front ++ back) := List.forall_mem_append.mpr ⟨ahead, behind⟩

theorem flat_of_all {p : Char → Bool} {text : Text} (all : text.all p = true)
    (feed : p '\n' = false) (carriage : p '\r' = false) : Flat text := by
  intro c member
  have known := List.all_eq_true.mp all c member
  constructor
  · rintro rfl
    exact Bool.false_ne_true (feed.symm.trans known)
  · rintro rfl
    exact Bool.false_ne_true (carriage.symm.trans known)

theorem compact_flat {gap : Text} (flat : Flat gap) (before after : Option Char) :
    compact before gap after = gap := by
  have single : '\n' ∉ gap := fun member => (flat '\n' member).1 rfl
  have joint : isIndented gap = false ∧ isLineEnd gap = false := by
    cases gap with
    | nil => decide
    | cons first gap =>
      obtain ⟨⟨feed, carriage⟩, _⟩ := List.forall_mem_cons.mp flat
      cases gap with
      | nil => simp [isIndented, isLineEnd, lineEnd?, feed, carriage]
      | cons second gap => simp [isIndented, isLineEnd, lineEnd?, feed, carriage]
  rw [compact, GapRule.andThen, dropLines_single single]
  simp [closeGap, joint]

theorem regapFrom_flat {text gap : Text} (flat : Flat text) (white : Flat gap) {last : Char}
    (solid : isBlank last = false) (before : Option Char) (rest : Text) :
    regapFrom compact before gap (text ++ last :: rest) =
      gap ++ text ++ last :: regapFrom compact (some last) [] rest := by
  induction text generalizing before gap with
  | nil => rw [List.nil_append, regapFrom_solid solid, compact_flat white, List.append_nil]
  | cons c text ih =>
    obtain ⟨first, flat⟩ := List.forall_mem_cons.mp flat
    cases blank : isBlank c with
    | true =>
      have longer : Flat (gap ++ [c]) := white.append (List.forall_mem_singleton.mpr first)
      rw [List.cons_append, regapFrom, if_pos blank, ih flat longer]
      simp
    | false =>
      rw [List.cons_append, regapFrom_solid blank, compact_flat white, ih flat flat_nil]
      simp

theorem regapFrom_feed (mark : Char) (rest : Text) :
    regapFrom compact (some mark) [] ('\n' :: rest) = regapFrom compact (some mark) ['\n'] rest :=
  rfl

/-- A declaration behind a mark that closes the gap, on a line of its own. -/
theorem regapFrom_declaration {d : Declaration} (plain : d.Plain)
    (solid : d.property.head?.any isBlank = false) {mark : Char} (closes : closesGap mark = true)
    (rest : Text) : regapFrom compact (some mark) ['\n'] (d.render ++ rest) =
      d.compact ++ regapFrom compact (some ';') ['\n'] rest := by
  obtain ⟨c, more, spelled, _⟩ := plain.spelled
  rw [spelled] at solid
  have name : Flat d.property := flat_of_all plain.property (by decide) (by decide)
  have value : Flat d.value := flat_of_all plain.value (by decide) (by decide)
  have line : Flat (more ++ ": " ++ d.value) := by
    rw [spelled] at name
    have behind : Flat more := (List.forall_mem_cons.mp name).2
    exact (behind.append (by decide)).append value
  have closed : compact (some mark) "\n  " (some c) = [] := by
    have known : mark = '{' ∨ mark = ';' := by simpa [closesGap] using closes
    rcases known with rfl | rfl
    · rfl
    · rfl
  have indent : Blank "  " :=
    List.forall_mem_cons.mpr ⟨by decide, List.forall_mem_singleton.mpr (by decide)⟩
  have text : d.render ++ rest = "  " ++ c :: (more ++ ": " ++ d.value ++ ';' :: '\n' :: rest) := by
    simp [Declaration.render, spelled]
  calc regapFrom compact (some mark) ['\n'] (d.render ++ rest)
    _ = regapFrom compact (some mark) "\n  " (c :: (more ++ ": " ++ d.value ++
        ';' :: '\n' :: rest)) := by rw [text, regapFrom_blank indent]; rfl
    _ = c :: regapFrom compact (some c) [] (more ++ ": " ++ d.value ++ ';' :: '\n' :: rest) := by
      rw [regapFrom_solid solid, closed, List.nil_append]
    _ = c :: (more ++ ": " ++ d.value ++ ';' :: regapFrom compact (some ';') ['\n'] rest) := by
      rw [regapFrom_flat line flat_nil (by decide), regapFrom_feed, List.nil_append]
    _ = d.compact ++ regapFrom compact (some ';') ['\n'] rest := by
      simp [Declaration.compact, spelled]

theorem regapFrom_declarations {ds : List Declaration} (plain : ∀ d ∈ ds, d.Plain)
    (solid : ∀ d ∈ ds, d.property.head?.any isBlank = false) (rest : Text) :
    regapFrom compact (some ';') ['\n'] (ds.flatMap Declaration.render ++ '}' :: rest) =
      ds.flatMap Declaration.compact ++ '}' :: regapFrom compact (some '}') [] rest := by
  induction ds with
  | nil => rfl
  | cons d ds ih =>
    obtain ⟨first, plain⟩ := List.forall_mem_cons.mp plain
    obtain ⟨head, solid⟩ := List.forall_mem_cons.mp solid
    rw [List.flatMap_cons, List.append_assoc, regapFrom_declaration first head rfl, ih plain solid,
      List.flatMap_cons, List.append_assoc]

section Rules

variable {r : Rule} (plain : r.Plain)
  (solid : ∀ d ∈ r.declarations, d.property.head?.any isBlank = false)

include plain solid

theorem regapFrom_body (rest : Text) : regapFrom compact (some '{') ['\n']
    (r.declarations.flatMap Declaration.render ++ '}' :: rest) =
      r.compactBody ++ '}' :: regapFrom compact (some '}') [] rest := by
  have known := plain.declarations
  unfold Rule.compactBody
  cases spelled : r.declarations with
  | nil => rfl
  | cons d ds =>
    rw [spelled] at known solid
    obtain ⟨first, known⟩ := List.forall_mem_cons.mp known
    obtain ⟨head, solid⟩ := List.forall_mem_cons.mp solid
    rw [if_neg (List.cons_ne_nil d ds), List.flatMap_cons, List.append_assoc,
      regapFrom_declaration first head rfl, regapFrom_declarations known solid, List.flatMap_cons,
      List.append_assoc]

/-- A rule in the compact form up to its closing brace; the line end behind it opens a gap. -/
theorem regapFrom_rule (before : Option Char) (gap rest : Text) :
    regapFrom compact before gap (r.render ++ rest) = compact before gap (some '.') ++
      (r.selector ++ " \x7b" ++ r.compactBody ++ "\x7d") ++
        regapFrom compact (some '}') ['\n'] rest := by
  obtain ⟨more, pointed⟩ := List.head?_eq_some_iff.mp plain.pointed
  have line : Flat (more ++ " ") := by
    have selector : Flat r.selector := flat_of_all plain.selector (by decide) (by decide)
    rw [pointed] at selector
    have behind : Flat more := (List.forall_mem_cons.mp selector).2
    exact behind.append (by decide)
  have text : r.render ++ rest = '.' :: (more ++ " " ++ '{' :: '\n' ::
      (r.declarations.flatMap Declaration.render ++ '}' :: '\n' :: rest)) := by
    simp [Rule.render, pointed]
  rw [text, regapFrom_solid (by decide), regapFrom_flat line flat_nil (by decide), regapFrom_feed,
    regapFrom_body plain solid, regapFrom_feed]
  simp [pointed]

end Rules

section Sheets

variable {rules : List Rule} (plain : ∀ r ∈ rules, r.Plain)
  (solid : ∀ r ∈ rules, ∀ d ∈ r.declarations, d.property.head?.any isBlank = false)

include plain

theorem commentless_render : Commentless (Sheet.render (rules.map .rule)) := by
  have clean : '/' ∉ Sheet.render (rules.map .rule) := by
    intro member
    obtain ⟨node, listed, written⟩ := List.mem_flatMap.mp member
    obtain ⟨r, inside, rfl⟩ := List.mem_map.mp listed
    rcases Rule.mem_render written with selector | ⟨d, holds, property | value⟩ | sign
    · exact absurd (List.all_eq_true.mp (plain r inside).selector _ selector) (by decide)
    · have known := ((plain r inside).declarations d holds).property
      exact absurd (List.all_eq_true.mp known _ property) (by decide)
    · have known := ((plain r inside).declarations d holds).value
      exact absurd (List.all_eq_true.mp known _ value) (by decide)
    · exact absurd sign (by decide)
  rintro here suffix (⟨more, rfl⟩ | ⟨more, rfl, _⟩)
  · exact clean (suffix.subset List.mem_cons_self)
  · exact clean (suffix.subset List.mem_cons_self)

include solid

theorem regapFrom_rules : regapFrom compact (some '}') ['\n'] (Sheet.render (rules.map .rule)) =
    '\n' :: rules.flatMap Rule.compact := by
  induction rules with
  | nil => rfl
  | cons r rules ih =>
    obtain ⟨first, plain⟩ := List.forall_mem_cons.mp plain
    obtain ⟨head, solid⟩ := List.forall_mem_cons.mp solid
    have text : Sheet.render ((r :: rules).map .rule) =
        r.render ++ Sheet.render (rules.map .rule) := rfl
    have feed : compact (some '}') ['\n'] (some '.') = ['\n'] := rfl
    rw [text, regapFrom_rule first head, ih plain solid, feed]
    simp [Rule.compact]

theorem minify_render : minify (Sheet.render (rules.map .rule)) = rules.flatMap Rule.compact := by
  rw [minify_eq, erase_commentless (commentless_render plain), regap]
  cases rules with
  | nil => rfl
  | cons r rules =>
    obtain ⟨first, plain⟩ := List.forall_mem_cons.mp plain
    obtain ⟨head, solid⟩ := List.forall_mem_cons.mp solid
    have text : Sheet.render ((r :: rules).map .rule) =
        r.render ++ Sheet.render (rules.map .rule) := rfl
    have joined : compact none [] (some '.') = [] := rfl
    rw [text, regapFrom_rule first head, regapFrom_rules plain solid, joined]
    simp [Rule.compact]

end Sheets

/-- Compaction keeps the meaning of plain rules: its result is read as the rules that were written,
those without declarations among them. -/
theorem parse_minify {rules : List Rule} (plain : ∀ r ∈ rules, r.Plain)
    (solid : ∀ r ∈ rules, ∀ d ∈ r.declarations, d.property.head?.any isBlank = false) :
    Sheet.parse (minify (Sheet.render (rules.map .rule))) = .ok (rules.map .rule) := by
  have charset : Sheet.setsCharset (rules.map .rule) = false := by
    cases rules with
    | nil => rfl
    | cons r rules => rfl
  rw [minify_render plain solid]
  exact Sheet.parse_written (fun r member => (plain r member).legible.compact) charset

/-- Brackets inside brackets, an empty value and a rule without declarations. -/
theorem parse_minify_nested :
    let rules : List Rule := [⟨".a > .b:hover, .c", [⟨"color", "rgb(calc(1 + (2)), 0, 0)"⟩,
      ⟨"margin-top", ""⟩]⟩, ⟨".d", []⟩]
    (∀ r ∈ rules, r.Plain) ∧
      (∀ r ∈ rules, ∀ d ∈ r.declarations, d.property.head?.any isBlank = false) ∧
      minify (Sheet.render (rules.map .rule)) =
        ".a > .b:hover, .c \x7bcolor: rgb(calc(1 + (2)), 0, 0);margin-top: ;\x7d\n.d \x7b\n\x7d\n" ∧
      Sheet.parse (minify (Sheet.render (rules.map .rule))) = .ok (rules.map .rule) := by
  intro rules
  have plain : ∀ r ∈ rules, r.Plain := by decide +kernel
  have solid : ∀ r ∈ rules, ∀ d ∈ r.declarations, d.property.head?.any isBlank = false := by
    decide +kernel
  exact ⟨plain, solid, by decide +kernel, parse_minify plain solid⟩

end Minify
end ColorTheme
