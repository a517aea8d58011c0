import ColorTheme.Proofs.Text.Lookbehind
import Mathlib.Data.List.Forall2

/-!
Texts as characters and the gaps between them. A gap is all the white space at a place. What a rule
for gaps makes of a text is known gap by gap: the characters stay in order, and two rules that are
applied one after the other are one rule. -/
namespace ColorTheme.Text

/-- What becomes of a gap between two characters; at either end of a text there is none. -/
abbrev GapRule := (before : Option Char) → (gap : Text) → (after : Option Char) → Text

def Blank (gap : Text) : Prop := ∀ c ∈ gap, isBlank c = true

/-- A text with the rule applied to every gap of it. It stands behind `before` and the part `gap` of
a gap. -/
def regapFrom (rule : GapRule) (before : Option Char) (gap : Text) : Text → Text
  | [] => rule before gap none
  | c :: rest =>
    if isBlank c then regapFrom rule before (gap ++ [c]) rest
    else rule before gap (some c) ++ c :: regapFrom rule (some c) [] rest

def regap (rule : GapRule) (text : Text) : Text := regapFrom rule none [] text

/-- A rule that makes gaps of gaps. -/
def GapRule.Blank (rule : GapRule) : Prop :=
  ∀ before gap after, Text.Blank gap → Text.Blank (rule before gap after)

/-- One rule after another. -/
def GapRule.andThen (first second : GapRule) : GapRule := fun before gap after =>
  second before (first before gap after) after

variable {rule first second : GapRule} {before : Option Char} {gap text : Text}

theorem blank_nil : Blank [] := List.forall_mem_nil _

theorem Blank.append {front back : Text} (ahead : Blank front) (behind : Blank back) :
    Blank (front ++ back) := List.forall_mem_append.mpr ⟨ahead, behind⟩

theorem Blank.concat (blank : Blank gap) {c : Char} (more : isBlank c = true) :
    Blank (gap ++ [c]) := blank.append (by simpa [Blank] using more)

theorem GapRule.Blank.andThen (ahead : first.Blank) (behind : second.Blank) :
    (first.andThen second).Blank := fun before gap after blank =>
  behind before _ after (ahead before gap after blank)

theorem regapFrom_blank {front : Text} (blank : Blank front) (rest : Text) :
    regapFrom rule before gap (front ++ rest) = regapFrom rule before (gap ++ front) rest := by
  induction front generalizing gap with
  | nil => simp
  | cons c front ih =>
    obtain ⟨here, later⟩ := List.forall_mem_cons.mp blank
    rw [List.cons_append, regapFrom, if_pos here, ih later, List.append_assoc]
    rfl

theorem regapFrom_solid {c : Char} (solid : isBlank c = false) (rest : Text) :
    regapFrom rule before gap (c :: rest) =
      rule before gap (some c) ++ c :: regapFrom rule (some c) [] rest := by
  simp [regapFrom, solid]

theorem regapFrom_gap (rule : GapRule) (before : Option Char) {rest : Text} (blank : Blank gap)
    (solid : rest.head?.any isBlank = false) : ∃ more,
      regapFrom rule before [] (gap ++ rest) = rule before gap rest.head? ++ more ∧
        more.head? = rest.head? := by
  rw [regapFrom_blank blank, List.nil_append]
  cases rest with
  | nil => exact ⟨[], (List.append_nil _).symm, rfl⟩
  | cons c rest => exact ⟨c :: regapFrom rule (some c) [] rest, regapFrom_solid solid rest, rfl⟩

theorem regapFrom_andThen (blank : first.Blank) (known : Blank gap) :
    regapFrom second before [] (regapFrom first before gap text) =
      regapFrom (first.andThen second) before gap text := by
  induction text generalizing before gap with
  | nil =>
    have whole : regapFrom second before [] (first before gap none ++ []) =
        regapFrom second before ([] ++ first before gap none) [] :=
      regapFrom_blank (blank before gap none known) []
    rw [List.append_nil, List.nil_append] at whole
    exact whole
  | cons c rest ih =>
    cases white : isBlank c with
    | true => simpa only [regapFrom, white, if_true] using ih (known.concat white)
    | false =>
      rw [regapFrom_solid white, regapFrom_solid white, regapFrom_blank (blank _ _ _ known),
        List.nil_append, regapFrom_solid white, ih blank_nil]
      rfl

theorem regap_andThen (blank : first.Blank) (text : Text) :
    regap second (regap first text) = regap (first.andThen second) text :=
  regapFrom_andThen blank blank_nil

theorem regapFrom_congr (same : ∀ before gap after, Blank gap →
    first before gap after = second before gap after) (blank : Blank gap) :
    regapFrom first before gap text = regapFrom second before gap text := by
  induction text generalizing before gap with
  | nil => exact same before gap none blank
  | cons c rest ih =>
    cases white : isBlank c with
    | true => simpa only [regapFrom, white, if_true] using ih (blank.concat white)
    | false => rw [regapFrom_solid white, regapFrom_solid white, same _ _ _ blank, ih blank_nil]

/-- A search that changes gaps only. It is enough to know what it does to the first gap behind at
most one character. -/
theorem replaceBy_eq_regap {m : Matcher Text} (step : ∀ (before : Option Char) (gap rest : Text),
      before.all (fun c => !isBlank c) = true → Blank gap → rest.head?.any isBlank = false →
      replaceBy m (before.toList ++ gap ++ rest) =
        before.toList ++ rule before gap rest.head? ++ replaceBy m rest) (text : Text) :
    replaceBy m text = regap rule text := by
  have all : ∀ (text gap : Text) (before : Option Char),
      before.all (fun c => !isBlank c) = true → Blank gap →
      replaceBy m (before.toList ++ gap ++ text) =
        before.toList ++ regapFrom rule before gap text := by
    intro text
    induction text with
    | nil =>
      intro gap before solid blank
      simpa [replaceBy, pieces, regapFrom] using step before gap [] solid blank rfl
    | cons c rest ih =>
      intro gap before solid blank
      cases white : isBlank c with
      | true =>
        have later := ih (gap ++ [c]) before solid (blank.concat white)
        simpa [regapFrom, white] using later
      | false =>
        have later := ih [] (some c) (by simp [white]) blank_nil
        have here := step before gap (c :: rest) solid blank (by simp [white])
        rw [here, regapFrom_solid white, List.append_assoc, List.head?_cons]
        simpa using later
  simpa [regap] using all text [] none rfl blank_nil

/-- A character that is no white space goes on as it did, with the rule applied to what follows. -/
theorem suffix_regapFrom (blank : rule.Blank) (known : Blank gap) {c : Char} {here : Text}
    (solid : isBlank c = false) (suffix : c :: here <:+ regapFrom rule before gap text) :
    ∃ rest, c :: rest <:+ text ∧ here = regapFrom rule (some c) [] rest := by
  have foreign : ∀ {gap : Text}, Blank gap → c ∉ gap := fun blank member =>
    Bool.false_ne_true (solid.symm.trans (blank c member))
  induction text generalizing before gap with
  | nil =>
    have inside : c ∈ rule before gap none := suffix.subset List.mem_cons_self
    exact absurd inside (foreign (blank _ _ _ known))
  | cons d rest ih =>
    cases white : isBlank d with
    | true =>
      rw [regapFrom, if_pos white] at suffix
      obtain ⟨more, later, same⟩ := ih (known.concat white) suffix
      exact ⟨more, later.trans (List.suffix_cons d rest), same⟩
    | false =>
      rw [regapFrom_solid white] at suffix
      obtain ⟨front, whole⟩ := suffix
      obtain ⟨more, _, behind⟩ := split_behind whole.symm (foreign (blank _ _ _ known))
      cases more with
      | nil =>
        obtain ⟨rfl, rfl⟩ := List.cons.inj behind
        exact ⟨rest, List.suffix_rfl, rfl⟩
      | cons e more =>
        obtain ⟨later, beyond, same⟩ := ih blank_nil ⟨more, (List.cons.inj behind).2.symm⟩
        exact ⟨later, beyond.trans (List.suffix_cons d rest), same⟩

/-- Every character that is no white space, and whether white space follows it. -/
def spacing : Text → List (Char × Bool)
  | [] => []
  | c :: rest => if isBlank c then spacing rest else (c, rest.head?.any isBlank) :: spacing rest

theorem spacing_blank {front : Text} (blank : Blank front) (rest : Text) :
    spacing (front ++ rest) = spacing rest := by
  induction front with
  | nil => rfl
  | cons c front ih =>
    obtain ⟨here, later⟩ := List.forall_mem_cons.mp blank
    rw [List.cons_append, spacing, if_pos here, ih later]

theorem spacing_chars (text : Text) :
    (spacing text).map Prod.fst = text.filter fun c => !isBlank c := by
  induction text with
  | nil => rfl
  | cons c rest ih => cases white : isBlank c <;> simp [spacing, white, ih]

/-- A gap that is there stays, unless it is one that `closes` lets go, and none is opened. -/
structure GapRule.Spares (rule : GapRule) (closes : Char → Bool) : Prop where
  blank : rule.Blank
  opens : ∀ before after, rule before [] after = []
  stays : ∀ c gap after, Text.Blank gap → gap ≠ [] → closes c = false → rule (some c) gap after ≠ []

theorem GapRule.Spares.andThen {closes : Char → Bool} (ahead : first.Spares closes)
    (behind : second.Spares closes) : (first.andThen second).Spares closes where
  blank := ahead.blank.andThen behind.blank
  opens before after := by rw [GapRule.andThen, ahead.opens, behind.opens]
  stays c gap after blank filled open' := behind.stays c _ after (ahead.blank _ _ _ blank)
    (ahead.stays c gap after blank filled open') open'

/-- Where no gap is after the rule, none was before it. -/
theorem regapFrom_adjacent {closes : Char → Bool} (spares : rule.Spares closes) {c d : Char}
    {rest more : Text} (open' : closes c = false) (solid : isBlank d = false)
    (next : regapFrom rule (some c) [] rest = d :: more) :
    ∃ later, rest = d :: later ∧ more = regapFrom rule (some d) [] later := by
  cases rest with
  | nil =>
    rw [regapFrom, spares.opens] at next
    contradiction
  | cons e rest =>
    cases white : isBlank e with
    | false =>
      rw [regapFrom_solid white, spares.opens, List.nil_append] at next
      obtain ⟨rfl, rfl⟩ := List.cons.inj next
      exact ⟨rest, rfl, rfl⟩
    | true =>
      -- The gap here would be left, and `d` is no white space.
      have blank : Blank ((e :: rest).takeWhile isBlank) := List.all_eq_true.mp List.all_takeWhile
      obtain ⟨_, regapped, _⟩ := regapFrom_gap rule (some c) blank
        (dropWhile_closed isBlank (e :: rest))
      rw [List.takeWhile_append_dropWhile, next] at regapped
      have filled : (e :: rest).takeWhile isBlank ≠ [] := by simp [white]
      obtain ⟨f, gap, made⟩ := List.exists_cons_of_ne_nil
        (spares.stays c _ ((e :: rest).dropWhile isBlank).head? blank filled open')
      have still := spares.blank (some c) _ ((e :: rest).dropWhile isBlank).head? blank
      rw [made] at regapped still
      rw [(List.cons.inj regapped).1, still f List.mem_cons_self] at solid
      contradiction

/-- Two characters that stand together after the rule stood together before it. -/
theorem suffix_regapFrom_pair {closes : Char → Bool} (spares : rule.Spares closes)
    (known : Blank gap) {c d : Char} {more : Text} (first : isBlank c = false)
    (open' : closes c = false) (second : isBlank d = false)
    (suffix : c :: d :: more <:+ regapFrom rule before gap text) :
    ∃ rest, c :: d :: rest <:+ text ∧ more = regapFrom rule (some d) [] rest := by
  obtain ⟨rest, start, next⟩ := suffix_regapFrom spares.blank known first suffix
  obtain ⟨later, rfl, same⟩ := regapFrom_adjacent spares open' second next.symm
  exact ⟨later, start, same⟩

/-- The same character; white space follows it as before, but may be gone if the character closes
the gap. -/
structure Spared (closes : Char → Bool) (old new : Char × Bool) : Prop where
  same : new.1 = old.1
  stays : old.2 = true → closes old.1 = false → new.2 = true
  opens : new.2 = true → old.2 = true

theorem spared_gap {closes : Char → Bool} (spares : rule.Spares closes) (c : Char) (rest : Text) :
    Spared closes (c, rest.head?.any isBlank)
      (c, (regapFrom rule (some c) [] rest).head?.any isBlank) := by
  have blank : Blank (rest.takeWhile isBlank) := List.all_eq_true.mp List.all_takeWhile
  have solid := dropWhile_closed isBlank rest
  obtain ⟨more, regapped, first⟩ := regapFrom_gap rule (some c) blank solid
  rw [List.takeWhile_append_dropWhile] at regapped
  rw [regapped]
  have made := spares.blank (some c) _ (rest.dropWhile isBlank).head? blank
  cases old : rest.takeWhile isBlank with
  | nil =>
    have whole : rest.dropWhile isBlank = rest := by
      have parts := List.takeWhile_append_dropWhile (p := isBlank) (l := rest)
      rwa [old, List.nil_append] at parts
    rw [whole] at solid first
    rw [spares.opens, List.nil_append, first]
    exact ⟨rfl, fun white => absurd white (by simp [solid]), id⟩
  | cons d gap =>
    have white : rest.head?.any isBlank = true := by
      have parts := List.takeWhile_append_dropWhile (p := isBlank) (l := rest)
      rw [old] at parts
      rw [← parts]
      exact blank d (old ▸ List.mem_cons_self)
    refine ⟨rfl, fun _ open' => ?_, fun _ => white⟩
    have stays := spares.stays c _ (rest.dropWhile isBlank).head? blank (by simp [old]) open'
    rw [old] at stays made
    obtain ⟨e, gap, filled⟩ := List.exists_cons_of_ne_nil stays
    rw [filled] at made ⊢
    exact made e List.mem_cons_self

theorem Spared.chars {closes : Char → Bool} {old new : List (Char × Bool)}
    (spared : List.Forall₂ (Spared closes) old new) : new.map Prod.fst = old.map Prod.fst := by
  induction spared with
  | nil => rfl
  | cons first _ ih => rw [List.map_cons, List.map_cons, first.same, ih]

/-- What a sparing rule does to a text, character by character. -/
theorem spacing_regapFrom {closes : Char → Bool} (spares : rule.Spares closes) (known : Blank gap) :
    List.Forall₂ (Spared closes) (spacing text) (spacing (regapFrom rule before gap text)) := by
  induction text generalizing before gap with
  | nil =>
    have blanks := spacing_blank (spares.blank before gap none known) []
    rw [List.append_nil] at blanks
    rw [regapFrom, blanks]
    exact .nil
  | cons c rest ih =>
    cases white : isBlank c with
    | true => simpa only [regapFrom, spacing, white, if_true] using ih (known.concat white)
    | false =>
      rw [regapFrom_solid white, spacing_blank (spares.blank _ _ _ known)]
      simp only [spacing, white, Bool.false_eq_true, if_false]
      exact .cons (spared_gap spares c rest) (ih blank_nil)

end ColorTheme.Text
