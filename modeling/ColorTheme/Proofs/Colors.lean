import ColorTheme.Proofs.Chain
import ColorTheme.Symbol
import Mathlib.Data.List.Induction

/-!
The colors of a list of declarations against their chains. A name whose chain ends at a color is
bound to it. A name whose chain ends at none should not be bound, but it keeps the color of the
last declaration that led to one, since a declaration without a color unbinds nothing. -/
namespace ColorTheme

namespace Bindings

theorem ofVariables_concat (front : List Variable) (v : Variable) :
    ofVariables (front ++ [v]) = (ofVariables front).insert v.name v.value := by
  simp [ofVariables, ofList, extend, List.foldl_append]

theorem get?_ofVariables (declared : List Variable) (name : Text) :
    ((ofVariables declared).get? name = none ∧ ∀ v ∈ declared, v.name ≠ name) ∨
      ∃ front v behind, declared = front ++ v :: behind ∧ v.name = name ∧
        (∀ w ∈ behind, w.name ≠ name) ∧ (ofVariables declared).get? name = some v.value := by
  -- From the back, since the last declaration of a name counts.
  induction declared using List.reverseRecOn with
  | nil => exact .inl ⟨rfl, nofun⟩
  | append_singleton front v ih =>
    rw [ofVariables_concat, get?_insert]
    by_cases last : name = v.name
    · exact .inr ⟨front, v, [], rfl, last.symm, nofun, if_pos last⟩
    · rw [if_neg last]
      rcases ih with ⟨missing, unnamed⟩ | ⟨before, w, between, rfl, named, unnamed, found⟩
      · refine .inl ⟨missing, ?_⟩
        intro w member
        rcases List.mem_append.mp member with earlier | here
        · exact unnamed w earlier
        · exact List.mem_singleton.mp here ▸ Ne.symm last
      · refine .inr ⟨before, w, between ++ [v], by simp, named, ?_, found⟩
        intro other member
        rcases List.mem_append.mp member with earlier | here
        · exact unnamed other earlier
        · exact List.mem_singleton.mp here ▸ Ne.symm last

end Bindings

namespace Variable

def color? (table : Bindings) (classifier : Classifier) (v : Variable) : Option Text :=
  match terminal table v with
  | .ok (some value) => if classifier.isColor value then some value else none
  | _ => none

/-- The color that the last of the declarations of a name with a color leads to. -/
def lastColor? (table : Bindings) (classifier : Classifier) (name : Text) :
    List Variable → Option Text
  | [] => none
  | v :: rest => (lastColor? table classifier name rest).or
      (if v.name = name then v.color? table classifier else none)

variable {table : Bindings} {classifier : Classifier} {name color : Text}

theorem lastColor?_append (front back : List Variable) :
    lastColor? table classifier name (front ++ back) =
      (lastColor? table classifier name back).or (lastColor? table classifier name front) := by
  induction front with
  | nil => simp [lastColor?]
  | cons v front ih => rw [List.cons_append, lastColor?, ih, Option.or_assoc, lastColor?]

theorem lastColor?_of_none {declared : List Variable} (unnamed : ∀ v ∈ declared, v.name ≠ name) :
    lastColor? table classifier name declared = none := by
  induction declared with
  | nil => rfl
  | cons v rest ih =>
    obtain ⟨first, unnamed⟩ := List.forall_mem_cons.mp unnamed
    rw [lastColor?, ih unnamed, if_neg first]
    rfl

/-- Each declaration with a color binds its name anew; the others leave it as it is. -/
theorem bindColors_get? {start bound : Bindings} {declared : List Variable}
    (done : bindColors table classifier start declared = .ok bound) :
    bound.get? name = (lastColor? table classifier name declared).or (start.get? name) := by
  induction declared generalizing start with
  | nil =>
    cases done
    rfl
  | cons v rest ih =>
    unfold bindColors at done
    rw [lastColor?, Option.or_assoc]
    split at done
    · contradiction
    · rename_i dangling
      simp [ih done, color?, dangling]
    · rename_i value ended
      rw [ih done]
      by_cases colored : classifier.isColor value
      · by_cases same : name = v.name
        · simp [color?, ended, colored, Bindings.get?_insert, same]
        · simp [colored, Bindings.get?_insert, same, Ne.symm same]
      · simp [color?, ended, colored]

theorem color?_eq_some {v : Variable} (bound : table.get? v.name = some v.value) :
    v.color? table classifier = some color ↔
      resolve table v.name = .value color ∧ classifier.isColor color = true := by
  have ended : terminal table v = .ok (some color) ↔ resolve table v.name = .value color := by
    rw [resolve_bound bound, terminal]
    by_cases reference : isReference v.value
    · simp only [reference, if_true]
      cases resolve table v.value <;> simp
    · simp [reference]
  rw [← ended, color?]
  split
  · rename_i value known
    by_cases colored : classifier.isColor value
    · simp only [colored, if_true, known, Option.some.injEq, Except.ok.injEq]
      constructor
      · rintro rfl
        exact ⟨rfl, colored⟩
      · exact And.left
    · simp only [colored, known, Except.ok.injEq, Option.some.injEq]
      constructor
      · nofun
      · rintro ⟨rfl, other⟩
        exact absurd other colored
  · rename_i endless
    constructor
    · nofun
    · rintro ⟨known, _⟩
      exact absurd known (endless color)

/-- A name is bound to the color at the end of its chain. If there is none it is still bound to
the color of the last declaration that led to one. -/
theorem colors_get? {declared : List Variable} {bound : Bindings}
    (done : colors declared classifier = .ok bound) (name color : Text) :
    let table := Bindings.ofVariables declared
    bound.get? name = some color ↔
      (resolve table name = .value color ∧ classifier.isColor color = true) ∨
        (∀ value, resolve table name = .value value → classifier.isColor value = false) ∧
          lastColor? table classifier name declared = some color := by
  intro table
  have known : bound.get? name = lastColor? table classifier name declared := by
    rw [bindColors_get? done]
    exact Option.or_none
  rw [known]
  rcases Bindings.get?_ofVariables declared name with ⟨missing, unnamed⟩ |
    ⟨front, v, behind, whole, rfl, unnamed, found⟩
  · have dangling : ∀ value, resolve table name ≠ .value value := by
      intro value ended
      obtain ⟨names, walk⟩ := resolve_eq_value.mp ended
      cases walk with
      | last bound _ => exact absurd (missing.symm.trans bound) nofun
      | next bound _ _ => exact absurd (missing.symm.trans bound) nofun
    simp [dangling]
  · have last : lastColor? table classifier v.name declared =
        (v.color? table classifier).or (lastColor? table classifier v.name front) := by
      rw [whole, lastColor?_append, lastColor?, lastColor?_of_none unnamed]
      simp
    have ended : ∀ value, v.color? table classifier = some value ↔
        resolve table v.name = .value value ∧ classifier.isColor value = true :=
      fun value => color?_eq_some found
    cases own : v.color? table classifier with
    | some value =>
      obtain ⟨chain, colored⟩ := (ended value).mp own
      rw [last, own, Option.some_or, ← own, ended color]
      constructor
      · exact .inl
      · rintro (agreed | ⟨never, _⟩)
        · exact agreed
        · exact absurd colored (by simp [never value chain])
    | none =>
      have never : ∀ value, resolve table v.name = .value value →
          classifier.isColor value = false := by
        intro value chain
        by_contra colored
        have other := (ended value).mpr ⟨chain, Bool.not_eq_false _ ▸ colored⟩
        exact absurd (own.symm.trans other) nofun
      constructor
      · intro stale
        exact .inr ⟨never, stale⟩
      · rintro (⟨chain, colored⟩ | ⟨_, stale⟩)
        · exact absurd colored (by simp [never color chain])
        · exact stale

/-- A color, a reference to it, and a length in place of the color. -/
def replacedColor : List Variable := [⟨"@a", "#fff"⟩, ⟨"@b", "@c"⟩, ⟨"@c", "#000"⟩, ⟨"@a", "12px"⟩]

theorem colors_get?_replaced :
    let table := Bindings.ofVariables replacedColor
    let bound : Bindings := ⟨[("@a", "#fff"), ("@b", "#000"), ("@c", "#000")]⟩
    colors replacedColor {} = .ok bound ∧ resolve table "@b" = .value "#000" ∧
      bound.get? "@b" = some "#000" ∧ resolve table "@a" = .value "12px" ∧
      bound.get? "@a" = some "#fff" := by
  intro table bound
  have done : colors replacedColor {} = .ok bound := by rfl
  have chain : resolve table "@b" = .value "#000" := by rfl
  have ended : resolve table "@a" = .value "12px" := by rfl
  have never : ∀ value, resolve table "@a" = .value value →
      Classifier.isColor {} value = false := by
    intro value known
    cases ended.symm.trans known
    rfl
  refine ⟨done, chain, ?_, ended, ?_⟩
  · exact (colors_get? done "@b" "#000").mpr (.inl ⟨chain, by rfl⟩)
  · exact (colors_get? done "@a" "#fff").mpr (.inr ⟨never, by rfl⟩)

/-- A bound color need not be where the chain of its name ends. -/
theorem colors_get?_stale :
    ¬ ∀ (declared : List Variable) (classifier : Classifier) (bound : Bindings),
      colors declared classifier = .ok bound → ∀ name color : Text,
        bound.get? name = some color ↔ resolve (Bindings.ofVariables declared) name = .value color ∧
          classifier.isColor color = true := by
  intro agree
  have done : colors [⟨"@a", "#fff"⟩, ⟨"@a", "12px"⟩] {} =
      .ok (⟨[("@a", "#fff")]⟩ : Bindings) := by rfl
  have chain := ((agree _ _ _ done "@a" "#fff").mp rfl).1
  revert chain
  decide

end Variable
end ColorTheme
