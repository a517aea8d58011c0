import ColorTheme.Probe
import ColorTheme.Proofs.Allocation
import ColorTheme.Proofs.Symbol
import ColorTheme.Proofs.Text.Run
import Mathlib.Data.List.Nodup

/-!
The names of shades and the rules of the probe. A shade is named after its variable and an ordinal,
and both are read back from the name. The shades of the primary variable are named after its family
instead, so a variable that has the name of the family shares them. -/
namespace ColorTheme

namespace Shade

/-- Shades can be named after a text that is there and stays on its line. -/
def IsBase (name : Text) : Prop := name ≠ [] ∧ '\n' ∉ name

instance (name : Text) : Decidable (IsBase name) := inferInstanceAs (Decidable (_ ∧ _))

/-- The expression that computes a shade of a variable in the browser. -/
def expression (name : Text) (ordinal : Nat) : Text :=
  "color(~`colorPalette(\"@\x7b" ++ withoutSigil name ++ "\x7d\", " ++ Text.ofNat ordinal ++ ")`)"

/-- The name that the shades of a variable are named after. -/
def familyOf (name : Text) : Text := if name = primaryVariable then primaryFamily else name

/-- The variable that the shades named after a variable are computed from. The family has those of
the primary variable, also where it is a variable itself. -/
def sourceOf (name : Text) : Text := if name = primaryFamily then primaryVariable else name

theorem nameOf_eq (name : Text) (ordinal : Nat) :
    nameOf name ordinal = familyOf name ++ '-' :: Text.ofNat ordinal := rfl

theorem familyOf_base {name : Text} : IsBase (familyOf name) ↔ IsBase name := by
  unfold familyOf
  split
  · rename_i primary
    subst primary
    decide
  · rfl

theorem sourceOf_familyOf (name : Text) : sourceOf (familyOf name) = sourceOf name := by
  unfold familyOf
  split
  · rename_i primary
    subst primary
    decide
  · rfl

theorem ofNat_ordinal : ∀ ordinal ∈ ordinals, Text.ofNat ordinal ≠ [] ∧ '-' ∉ Text.ofNat ordinal ∧
    (Text.ofNat ordinal).all Text.isDecimal = true := by decide

theorem ofNat_inj : ∀ first ∈ ordinals, ∀ second ∈ ordinals,
    Text.ofNat first = Text.ofNat second → first = second := by decide

theorem split?_append {ordinal : Nat} (known : ordinal ∈ ordinals) (base : Text) :
    split? (base ++ '-' :: Text.ofNat ordinal) =
      if IsBase base then some (base, Text.ofNat ordinal) else none := by
  obtain ⟨filled, plain, decimal⟩ := ofNat_ordinal ordinal known
  have shaded : (Text.ofNat ordinal).isEmpty = false := by simpa using filled
  simp only [split?, Text.cutLast?_append plain, Option.bind_eq_bind, Option.bind_some, shaded,
    decimal, IsBase]
  by_cases empty : base = [] <;> by_cases feed : '\n' ∈ base <;> simp [empty, feed]

theorem isShadeName_append {ordinal : Nat} (known : ordinal ∈ ordinals) {base : Text} :
    isShadeName (base ++ '-' :: Text.ofNat ordinal) = true ↔ IsBase base := by
  rw [isShadeName, split?_append known]
  split <;> simp_all

theorem expression?_nameOf {ordinal : Nat} (known : ordinal ∈ ordinals) (name : Text) :
    expression? (nameOf name ordinal) =
      if IsBase name then some (expression (sourceOf name) ordinal) else none := by
  rw [expression?, nameOf_eq, split?_append known, ← sourceOf_familyOf]
  simp only [familyOf_base]
  split
  · rfl
  · rfl

theorem exists_sigils (name : Text) : ∃ sigils, name = sigils ++ withoutSigil name ∧
    ∀ c ∈ sigils, c = '@' :=
  ⟨name.takeWhile (· = '@'), List.takeWhile_append_dropWhile.symm, fun _ member =>
    by simpa using List.all_eq_true.mp List.all_takeWhile _ member⟩

theorem mem_withoutSigil {c : Char} (other : c ≠ '@') {name : Text} :
    c ∈ withoutSigil name ↔ c ∈ name := by
  obtain ⟨sigils, whole, only⟩ := exists_sigils name
  have outside : c ∉ sigils := fun member => other (only c member)
  conv_rhs => rw [whole, List.mem_append]
  simp [outside]

theorem base_of_withoutSigil {name : Text} (based : IsBase (withoutSigil name)) : IsBase name := by
  refine ⟨fun empty => based.1 ?_, fun feed => based.2 ((mem_withoutSigil (by decide)).mpr feed)⟩
  rw [empty, withoutSigil, List.dropWhile_nil]

theorem withoutSigil_append {c : Char} (other : c ≠ '@') (name rest : Text) :
    withoutSigil (name ++ c :: rest) = withoutSigil name ++ c :: rest := by
  induction name with
  | nil => simp [withoutSigil, other]
  | cons d name ih =>
    by_cases sigil : d = '@'
    · simpa [withoutSigil, sigil] using ih
    · simp [withoutSigil, sigil]

theorem withoutSigil_nameOf (name : Text) (ordinal : Nat) : withoutSigil (nameOf name ordinal) =
    withoutSigil (familyOf name) ++ '-' :: Text.ofNat ordinal :=
  withoutSigil_append (by decide) _ _

/-- A shade is told from the others by the family without its sigil and the ordinal. -/
theorem withoutSigil_nameOf_inj {first second : Nat} (known : first ∈ ordinals)
    (other : second ∈ ordinals) {name base : Text}
    (same : withoutSigil (nameOf name first) = withoutSigil (nameOf base second)) :
    withoutSigil (familyOf name) = withoutSigil (familyOf base) ∧ first = second := by
  rw [withoutSigil_nameOf, withoutSigil_nameOf] at same
  have cut := congrArg (Text.cutLast? '-') same
  rw [Text.cutLast?_append (ofNat_ordinal first known).2.1,
    Text.cutLast?_append (ofNat_ordinal second other).2.1] at cut
  obtain ⟨stem, digits⟩ := Prod.mk.inj (Option.some.inj cut)
  exact ⟨stem, ofNat_inj first known second other digits⟩

/-- A name that is no shade reads like a shade only if the base consists of sigils. -/
theorem withoutSigil_eq_nameOf {ordinal : Nat} (known : ordinal ∈ ordinals) {name base : Text}
    (plain : isShadeName name = false) (based : IsBase base) :
    withoutSigil name = withoutSigil (nameOf base ordinal) ↔
      name = '-' :: Text.ofNat ordinal ∧ withoutSigil base = [] := by
  constructor
  · intro same
    obtain ⟨sigils, whole, only⟩ := exists_sigils name
    have feedless : '\n' ∉ sigils ++ withoutSigil (familyOf base) := by
      rw [List.mem_append, not_or, mem_withoutSigil (by decide)]
      exact ⟨fun feed => absurd (only _ feed) (by decide), (familyOf_base.mpr based).2⟩
    rw [same, withoutSigil_nameOf, ← List.append_assoc] at whole
    have unbased : ¬ IsBase (sigils ++ withoutSigil (familyOf base)) := fun shaded =>
      Bool.false_ne_true (plain.symm.trans (whole ▸ (isShadeName_append known).mpr shaded))
    have empty : sigils ++ withoutSigil (familyOf base) = [] := by
      by_contra filled
      exact unbased ⟨filled, feedless⟩
    have secondary : base ≠ primaryVariable := by
      rintro rfl
      exact absurd (List.append_eq_nil_iff.mp empty).2 (by decide)
    refine ⟨by rw [whole, empty, List.nil_append], ?_⟩
    simpa [familyOf, secondary] using (List.append_eq_nil_iff.mp empty).2
  · rintro ⟨rfl, bare⟩
    have secondary : base ≠ primaryVariable := by
      rintro rfl
      exact absurd bare (by decide)
    rw [withoutSigil_nameOf, familyOf, if_neg secondary, bare]
    simp [withoutSigil]

end Shade

namespace Probe

open Shade

def written (rule : Text × Text) : Text := rule.1 ++ " \x7b color: " ++ rule.2 ++ "; \x7d\n"

/-- The rules of the shades of a variable. -/
def shades (name : Text) : List (Text × Text) :=
  if IsBase name then ordinals.map fun ordinal =>
    (selector (nameOf name ordinal), expression (sourceOf name) ordinal)
  else []

/-- The rules of a probe: one for each variable, and then one for each shade. -/
def rules (m : SentinelMap) : List (Text × Text) :=
  m.entries.map (fun (name, sentinel) => (selector name, sentinel)) ++
    m.entries.flatMap fun (name, _) => shades name

theorem shadeRules_eq (name : Text) : shadeRules name = (shades name).flatMap written := by
  unfold shadeRules shades
  split
  · rename_i based
    rw [List.flatMap_map]
    refine List.flatMap_congr fun ordinal known => ?_
    simp only [expression?_nameOf known, if_pos based]
    rfl
  · rename_i unbased
    rw [List.flatMap_nil]
    refine List.flatMap_eq_nil_iff.mpr fun ordinal known => ?_
    simp only [expression?_nameOf known, if_neg unbased]

theorem synthesize_eq (palette : Text) (m : SentinelMap) :
    synthesize palette m =
      palette ++ "\n" ++ m.declarations ++ "\n" ++ (rules m).flatMap written := by
  have plain : m.entries.flatMap (fun (name, sentinel) => rule name sentinel) =
      (m.entries.map fun (name, sentinel) => (selector name, sentinel)).flatMap written := by
    rw [List.flatMap_map]
    rfl
  simp only [synthesize, rules, plain, shadeRules_eq, List.flatMap_append, List.flatMap_assoc,
    List.append_assoc]

/-- When no two rules of variables have one selector. -/
structure Unambiguous (names : List Text) : Prop where
  /-- The names differ in more than their sigils. -/
  bare : (names.map withoutSigil).Nodup
  /-- The primary variable is alone in its family. -/
  family : primaryVariable ∈ names → withoutSigil primaryFamily ∉ names.map withoutSigil
  /-- A shade of a name of sigils reads like a name only if that name is none of the variables. -/
  sigils : ∀ name ∈ names, IsBase name → withoutSigil name = [] →
    ∀ ordinal ∈ ordinals, '-' :: Text.ofNat ordinal ∉ names

theorem mem_shades {name : Text} {rule : Text × Text} : rule ∈ shades name ↔
    IsBase name ∧ ∃ ordinal ∈ ordinals,
      (selector (nameOf name ordinal), expression (sourceOf name) ordinal) = rule := by
  unfold shades
  split
  · rename_i based
    simp [based]
  · rename_i unbased
    simp [unbased]

def shadeSelectors (name : Text) : List Text := (shades name).map Prod.fst

theorem mem_shadeSelectors {name other : Text} : selector other ∈ shadeSelectors name ↔
    IsBase name ∧ ∃ ordinal ∈ ordinals,
      withoutSigil other = withoutSigil (nameOf name ordinal) := by
  simp only [shadeSelectors, List.mem_map, mem_shades]
  constructor
  · rintro ⟨_, ⟨based, ordinal, known, rfl⟩, same⟩
    exact ⟨based, ordinal, known, (List.cons.inj same).2.symm⟩
  · rintro ⟨based, ordinal, known, same⟩
    exact ⟨_, ⟨based, ordinal, known, rfl⟩, congrArg ('.' :: ·) same.symm⟩

theorem selectors_rules (m : SentinelMap) : (rules m).map Prod.fst =
    (m.entries.map Prod.fst).map selector ++ (m.entries.map Prod.fst).flatMap shadeSelectors := by
  simp only [rules, shadeSelectors, List.map_append, List.map_map, List.map_flatMap,
    List.flatMap_map]
  rfl

theorem shadeSelectors_nodup (name : Text) : (shadeSelectors name).Nodup := by
  unfold shadeSelectors shades
  split
  · rw [List.map_map]
    refine List.Nodup.map_on (fun first known second other same => ?_) (by decide)
    exact (withoutSigil_nameOf_inj known other (List.cons.inj same).2).2
  · exact List.nodup_nil

section Selectors

variable {names : List Text}

theorem Unambiguous.familyOf_inj (clear : Unambiguous names) {name other : Text}
    (known : name ∈ names) (member : other ∈ names)
    (same : withoutSigil (familyOf name) = withoutSigil (familyOf other)) : name = other := by
  unfold familyOf at same
  split at same <;> split at same
  · rename_i first second
    exact first.trans second.symm
  · rename_i primary _
    exact absurd (List.mem_map.mpr ⟨other, member, same.symm⟩) (clear.family (primary ▸ known))
  · rename_i _ primary
    exact absurd (List.mem_map.mpr ⟨name, known, same⟩) (clear.family (primary ▸ member))
  · exact List.inj_on_of_nodup_map clear.bare known member same

theorem Unambiguous.shades_nodup (clear : Unambiguous names) :
    (names.flatMap shadeSelectors).Nodup := by
  refine List.nodup_flatMap.mpr ⟨fun name _ => shadeSelectors_nodup name, ?_⟩
  have distinct := List.Nodup.of_map _ clear.bare
  refine distinct.pairwise_of_forall_ne fun name known other member apart => ?_
  refine List.disjoint_left.mpr fun text first second => apart ?_
  obtain ⟨_, listed, rfl⟩ := List.mem_map.mp first
  obtain ⟨_, ordinal, given, rfl⟩ := mem_shades.mp listed
  obtain ⟨_, later, other, same⟩ := mem_shadeSelectors.mp second
  exact clear.familyOf_inj known member (withoutSigil_nameOf_inj given other same).1

/-- No variable has the selector of a shade, since no variable is named like a shade. -/
theorem Unambiguous.disjoint (clear : Unambiguous names)
    (plain : ∀ name ∈ names, isShadeName name = false) :
    List.Disjoint (names.map selector) (names.flatMap shadeSelectors) := by
  refine List.disjoint_left.mpr fun text first second => ?_
  obtain ⟨name, known, rfl⟩ := List.mem_map.mp first
  obtain ⟨base, member, shade⟩ := List.mem_flatMap.mp second
  obtain ⟨based, ordinal, given, same⟩ := mem_shadeSelectors.mp shade
  obtain ⟨rfl, bare⟩ := (withoutSigil_eq_nameOf given (plain name known) based).mp same
  exact clear.sigils base member based bare ordinal given known

theorem selectors_nodup_iff (plain : ∀ name ∈ names, isShadeName name = false) :
    (names.map selector ++ names.flatMap shadeSelectors).Nodup ↔ Unambiguous names := by
  rw [List.nodup_append']
  constructor
  · rintro ⟨single, shaded, apart⟩
    have bare : (names.map withoutSigil).Nodup := by
      refine List.Nodup.of_map ('.' :: ·) ?_
      rwa [List.map_map]
    refine ⟨bare, fun primary member => ?_, fun name member based sigils ordinal given known => ?_⟩
    · obtain ⟨other, known, same⟩ := List.mem_map.mp member
      have secondary : primaryVariable ≠ other := by
        rintro rfl
        exact absurd same (by decide)
      have based : IsBase other := base_of_withoutSigil (same ▸ by decide)
      have : Std.Symm (Function.onFun List.Disjoint shadeSelectors) :=
        ⟨fun _ _ => List.disjoint_symm⟩
      have disjoint := (List.nodup_flatMap.mp shaded).2.forall primary known secondary
      have shade : selector (nameOf primaryVariable 1) ∈ shadeSelectors primaryVariable := by decide
      refine List.disjoint_left.mp disjoint shade (mem_shadeSelectors.mpr ⟨based, 1, by decide, ?_⟩)
      rw [withoutSigil_nameOf other, familyOf, if_neg secondary.symm, same]
      rfl
    · refine List.disjoint_left.mp apart (List.mem_map_of_mem known) ?_
      refine List.mem_flatMap.mpr ⟨name, member, mem_shadeSelectors.mpr ⟨based, ordinal, given, ?_⟩⟩
      exact (withoutSigil_eq_nameOf given (plain _ known) based).mpr ⟨rfl, sigils⟩
  · intro clear
    refine ⟨?_, clear.shades_nodup, clear.disjoint plain⟩
    have distinct := clear.bare.map (List.cons_injective (a := '.'))
    rwa [List.map_map] at distinct

end Selectors

/-- Variables with names as style sheets declare them are ambiguous only by the family of the
primary variable. -/
theorem unambiguous_iff {names : List Text} (named : ∀ name ∈ names, Variable.IsName name)
    (distinct : names.Nodup) :
    Unambiguous names ↔ ¬ (primaryVariable ∈ names ∧ primaryFamily ∈ names) := by
  have sigiled : ∀ name ∈ names, name = '@' :: withoutSigil name ∧ withoutSigil name ≠ [] := by
    intro name member
    obtain ⟨word, rfl, filled, inner⟩ := named name member
    have bare : withoutSigil ('@' :: word) = word := by
      have first : word.dropWhile (· = '@') = word := Text.dropWhile_of_none fun c inside =>
        decide_eq_false fun same => absurd (inner c inside) (by rw [same]; decide)
      simpa [withoutSigil] using first
    rw [bare]
    exact ⟨rfl, filled⟩
  constructor
  · rintro clear ⟨primary, family⟩
    exact clear.family primary (List.mem_map_of_mem family)
  · intro apart
    refine ⟨distinct.map_on fun name known other member same => ?_, fun primary family => ?_,
      fun name member _ empty => absurd empty (sigiled name member).2⟩
    · rw [(sigiled name known).1, same, ← (sigiled other member).1]
    · obtain ⟨name, member, same⟩ := List.mem_map.mp family
      have whole : name = primaryFamily := by
        rw [(sigiled name member).1, same]
        rfl
      exact apart ⟨primary, whole ▸ member⟩

/-- The rules that the probe of selected variables is written as. Their selectors are distinct
exactly if the selection is unambiguous, and then the rule of each shade holds the expression of its
variable and ordinal. Declared names are ambiguous only with the primary variable and its family. -/
theorem synthesize_rules {requested : List Text} {symbols : Bindings} {a b : Allocator}
    {m : SentinelMap}
    (assigned : SentinelMap.assign (Symbol.select requested symbols) a = some (m, b))
    (palette : Text) :
    let selected := Symbol.select requested symbols
    synthesize palette m =
        palette ++ "\n" ++ m.declarations ++ "\n" ++ (rules m).flatMap written ∧
      (((rules m).map Prod.fst).Nodup ↔ Unambiguous selected) ∧
      (Symbol.Declared symbols →
        (Unambiguous selected ↔ ¬ (primaryVariable ∈ selected ∧ primaryFamily ∈ selected))) ∧
      ∀ name ∈ selected, IsBase name → ∀ ordinal ∈ ordinals,
        (selector (nameOf name ordinal), expression (sourceOf name) ordinal) ∈ rules m := by
  intro selected
  have names : m.entries.map Prod.fst = selected := by
    have ordered := SentinelMap.assignFrom_names [] assigned rfl
    exact ordered.trans (eraseDups_of_nodup Symbol.select_nodup)
  refine ⟨synthesize_eq palette m, ?_, fun declared => ?_, fun name member based ordinal given => ?_⟩
  · rw [selectors_rules, names]
    exact selectors_nodup_iff fun name => Symbol.select_plain
  · refine unambiguous_iff (fun name chosen => ?_) Symbol.select_nodup
    obtain ⟨_, _, listed, rfl⟩ := declared name (Symbol.mem_names_of_select chosen)
    exact Variable.extract_name listed
  · obtain ⟨entry, known, rfl⟩ := List.mem_map.mp (names ▸ member)
    refine List.mem_append_right _ (List.mem_flatMap.mpr ⟨entry, known, ?_⟩)
    exact mem_shades.mpr ⟨based, ordinal, given, rfl⟩

/-- The assignment to a family and to the primary variable, of which only the family takes a
color. -/
theorem assign_family : ∃ b,
    SentinelMap.assign ["@primary", "@primary-color"] { draws := Draws.ofList #[256] } =
      some ((SentinelMap.give {} "@primary" "#000001").give primaryVariable primarySentinel, b) := by
  have drawn := Allocator.next_first (a := { draws := Draws.ofList #[256] }) "#000001"
    (by decide +kernel)
  exact ⟨_, SentinelMap.assignFrom_new rfl (by decide) drawn [primaryVariable]⟩

/-- A variable with a shade of each ordinal. -/
theorem synthesize_rules_primary :
    let symbols := Bindings.parse "@primary-color: #eee;"
    let m := SentinelMap.give {} primaryVariable primarySentinel
    SentinelMap.assign (Symbol.select [primaryVariable] symbols) { draws := Draws.ofList #[] } =
        some (m, { draws := Draws.ofList #[] }) ∧
      ((rules m).map Prod.fst).Nodup ∧
      ∀ ordinal ∈ ordinals,
        (selector (nameOf primaryVariable ordinal), expression primaryVariable ordinal) ∈
          rules m := by
  intro symbols m
  have selected : Symbol.select [primaryVariable] symbols = [primaryVariable] := by decide +kernel
  have assigned : SentinelMap.assign (Symbol.select [primaryVariable] symbols)
      { draws := Draws.ofList #[] } = some (m, { draws := Draws.ofList #[] }) := by
    rw [selected]
    rfl
  obtain ⟨_, distinct, clear, computed⟩ := synthesize_rules assigned []
  refine ⟨assigned, distinct.mpr ((clear (Symbol.declared_parse _)).mpr ?_), ?_⟩
  · decide +kernel
  · exact computed primaryVariable (by rw [selected]; decide) (by decide +kernel)

/-- The primary variable and one with the name of its family have shades of the same names, and the
shades of the latter are not computed from it. -/
theorem primary_family_shared :
    (¬ ∀ (requested : List Text) (symbols : Bindings) (a b : Allocator) (m : SentinelMap),
      Symbol.Declared symbols →
      SentinelMap.assign (Symbol.select requested symbols) a = some (m, b) →
      ((rules m).map Prod.fst).Nodup) ∧
    ¬ ∀ (requested : List Text) (symbols : Bindings) (a b : Allocator) (m : SentinelMap),
      Symbol.Declared symbols →
      SentinelMap.assign (Symbol.select requested symbols) a = some (m, b) →
      ∀ name ∈ Symbol.select requested symbols, ∀ ordinal ∈ ordinals,
        (selector (nameOf name ordinal), expression name ordinal) ∈ rules m := by
  let symbols := Bindings.parse "@primary: #fff; @primary-color: #eee;"
  have declared : Symbol.Declared symbols := Symbol.declared_parse _
  have selected : Symbol.select ["@primary", "@primary-color"] symbols =
      [("@primary" : Text), "@primary-color"] := by
    decide +kernel
  obtain ⟨b, assigned⟩ := assign_family
  rw [← selected] at assigned
  constructor
  · intro distinct
    have shared := distinct _ _ _ _ _ declared assigned
    revert shared
    decide +kernel
  · intro own
    have computed := own _ _ _ _ _ declared assigned "@primary" (by rw [selected]; decide) 1
      (by decide)
    revert computed
    decide +kernel

end Probe
end ColorTheme
