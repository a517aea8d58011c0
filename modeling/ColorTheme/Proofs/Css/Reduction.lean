import ColorTheme.Css.Reduction
import ColorTheme.Proofs.Css.Parser
import Mathlib.Data.List.Infix

/-!
What reduction keeps of plain rules, whatever sheet follows them. -/
namespace ColorTheme

namespace Text

theorem startsWith_iff {start text : Text} : startsWith start text = true ↔ start <+: text := by
  rw [startsWith, Option.isSome_iff_exists]
  constructor
  · rintro ⟨rest, found⟩
    exact ⟨rest, (after?_eq_some.mp found).symm⟩
  · rintro ⟨rest, whole⟩
    exact ⟨rest, after?_eq_some.mpr whole.symm⟩

theorem includes_iff {needle text : Text} : includes needle text = true ↔ needle <:+: text := by
  induction text with
  | nil => simp [includes]
  | cons c rest ih => rw [includes, Bool.or_eq_true, startsWith_iff, ih, List.infix_cons_iff]

end Text

namespace Css

theorem AtRule.step_eq (name : Text) (ts : List Token) :
    ∃ r, AtRule.step name ts = .node (.atRule r) (Token.skipStatement ts) := by
  unfold AtRule.step Token.skipStatement
  obtain ⟨prelude, after⟩ := Token.splitOutside Token.endsPrelude [] ts
  cases after with
  | nil => exact ⟨_, rfl⟩
  | cons t rest =>
    cases opens : t.opensBlock with
    | true => exact ⟨_, by simp only [opens, if_true]; rfl⟩
    | false => exact ⟨_, by simp only [opens, Bool.false_eq_true, if_false]; rfl⟩

/-- Only a character set rule is read in another way where it comes first. -/
theorem Node.step_first (t : Token) (rest : List Token) :
    Node.step true t rest = Node.step false t rest ∨ ∃ r more,
      Node.step true t rest = .skipped more ∧ Node.step false t rest = .node (.atRule r) more := by
  unfold Node.step
  split
  · rename_i name _
    by_cases charset : name.map Text.lowerAscii = "charset".toList
    · obtain ⟨r, step⟩ := AtRule.step_eq name rest
      exact .inr ⟨r, Token.skipStatement rest, by simp [charset], by simpa using step⟩
    · exact .inl (by simp only [charset, decide_false, Bool.and_false])
  · exact .inl rfl

theorem Sheet.ofTokens_first {ts : List Token} {sheet : Sheet}
    (read : Sheet.ofTokens true ts = .ok sheet) : ∃ lead : Sheet,
      (∀ node ∈ lead, ∃ r, node = .atRule r) ∧ Sheet.ofTokens false ts = .ok (lead ++ sheet) := by
  induction ts with
  | nil =>
    rw [Sheet.ofTokens] at read ⊢
    exact ⟨[], List.forall_mem_nil _, read⟩
  | cons t rest ih =>
    cases item : t.isFiller with
    | true =>
      rw [Sheet.ofTokens_filler item] at read ⊢
      exact ih read
    | false =>
      rw [Sheet.ofTokens_item item] at read ⊢
      rcases Node.step_first t rest with same | ⟨r, more, skipped, kept⟩
      · rw [same] at read
        exact ⟨[], List.forall_mem_nil _, read⟩
      · rw [skipped] at read
        have more : Sheet.ofTokens false more = .ok sheet := read
        refine ⟨[.atRule r], by simp, ?_⟩
        simp [kept, more, Except.map]

namespace Sheet

theorem reduce_append (front back : Sheet) :
    (front ++ back).reduce = front.reduce ++ back.reduce := by
  simp [reduce, filterAtRules, filterMapRules]

theorem reduce_atRules {lead : Sheet} (atRules : ∀ node ∈ lead, ∃ r, node = .atRule r) :
    lead.reduce = [] := by
  induction lead with
  | nil => rfl
  | cons node lead ih =>
    obtain ⟨⟨r, rfl⟩, later⟩ := List.forall_mem_cons.mp atRules
    exact ih later

theorem reduce_rules (rules : List Rule) :
    reduce (rules.map .rule) = (rules.filterMap Rule.reduce?).map .rule := by
  induction rules with
  | nil => rfl
  | cons r rules ih =>
    have split : reduce ((r :: rules).map .rule) = reduce [.rule r] ++ reduce (rules.map .rule) :=
      reduce_append [.rule r] (rules.map .rule)
    rw [split, ih]
    cases kept : r.reduce? with
    | none => simp [reduce, filterAtRules, filterMapRules, kept]
    | some reduced => simp [reduce, filterAtRules, filterMapRules, kept]

theorem reduce_eq (sheet : Sheet) :
    sheet.reduce = (sheet.rules.filterMap Rule.reduce?).map .rule := by
  induction sheet with
  | nil => rfl
  | cons node sheet ih =>
    rw [← List.singleton_append, reduce_append, ih]
    cases node with
    | rule r =>
      have first : reduce [.rule r] = ([r].filterMap Rule.reduce?).map .rule := reduce_rules [r]
      rw [first, ← List.map_append, ← List.filterMap_append]
      rfl
    | atRule r => rfl

theorem render_append (front back : Sheet) :
    render (front ++ back) = render front ++ render back := List.flatMap_append

end Sheet

theorem reduceToColors_eq_ok {css text : Text} : reduceToColors css = .ok text ↔
    ∃ sheet, Sheet.ofTokens true (Token.scan css) = .ok sheet ∧ text = sheet.reduce.render := by
  have run : reduceToColors css = ((Sheet.ofTokens true (Token.scan css)).mapError
      (Stop.error (Token.scan css))).map fun sheet => sheet.reduce.render := rfl
  rw [run]
  cases Sheet.ofTokens true (Token.scan css) with
  | error stop =>
    constructor
    · intro same
      cases same
    · rintro ⟨sheet, same, _⟩
      cases same
  | ok sheet =>
    constructor
    · intro same
      exact ⟨sheet, rfl, (Except.ok.inj same).symm⟩
    · rintro ⟨other, same, rfl⟩
      cases same
      rfl

/-- The declarations of a rule whose properties speak of colors, if there are any and the rule
is none of the palette preview. -/
def Rule.colors? (r : Rule) : Option Rule :=
  let kept := r.declarations.filter fun d =>
    colorProperties.any fun fragment => decide (fragment <:+: d.property)
  if palettePrefix <+: r.selector ∨ kept = [] then none else some ⟨r.selector, kept⟩

theorem Declaration.Plain.bearsColor {d : Declaration} (plain : d.Plain) :
    d.bearsColor = colorProperties.any fun fragment => decide (fragment <:+: d.property) := by
  have address : referencesUrl d.value = false := by
    have absent : Text.cut? "url(" d.value = none :=
      (Text.cut?_eq_none (by decide)).mpr fun inside => plain.address (inside.map Text.lowerAscii)
    rw [referencesUrl, absent]
  have same : ∀ fragment, Text.includes fragment d.property =
      decide (fragment <:+: d.property) := by
    intro fragment
    rw [Bool.eq_iff_iff, Text.includes_iff, decide_eq_true_eq]
  simp only [Declaration.bearsColor, address, Bool.not_false, Bool.true_and, same]

theorem Rule.Plain.reduce?_eq {r : Rule} (plain : r.Plain) : r.reduce? = r.colors? := by
  have kept : r.declarations.filter Declaration.bearsColor = r.declarations.filter fun d =>
      colorProperties.any fun fragment => decide (fragment <:+: d.property) :=
    List.filter_congr fun d member => (plain.declarations d member).bearsColor
  simp only [Rule.reduce?, Rule.colors?, Rule.filterDeclarations, kept]
  by_cases palette : palettePrefix <+: r.selector
  · rw [if_pos (Text.startsWith_iff.mpr palette), if_pos (.inl palette)]
  · rw [if_neg (mt Text.startsWith_iff.mp palette)]
    simp only [palette, false_or, List.isEmpty_iff]

/-- Reduction is a filter on plain rules, and goes on behind them as if they were not there. -/
theorem reduceToColors_append {rules : List Rule} (plain : ∀ r ∈ rules, r.Plain)
    {css reduced : Text} (known : reduceToColors css = .ok reduced) :
    reduceToColors (Sheet.render (rules.map .rule) ++ css) =
      .ok (Sheet.render ((rules.filterMap Rule.colors?).map .rule) ++ reduced) := by
  obtain ⟨sheet, read, rfl⟩ := reduceToColors_eq_ok.mp known
  have kept : rules.filterMap Rule.reduce? = rules.filterMap Rule.colors? :=
    List.filterMap_congr fun r member => (plain r member).reduce?_eq
  have render : reduceToColors (Sheet.render (rules.map .rule) ++ css) =
      .ok ((Sheet.reduce (rules.map .rule ++ sheet)).render) := by
    have front := Sheet.ofTokens_rules plain true css
    cases first : rules.isEmpty with
    | true =>
      rw [first, Bool.and_true, read] at front
      exact reduceToColors_eq_ok.mpr ⟨_, front, rfl⟩
    | false =>
      obtain ⟨lead, atRules, later⟩ := Sheet.ofTokens_first read
      rw [first, Bool.and_false, later] at front
      refine reduceToColors_eq_ok.mpr ⟨_, front, ?_⟩
      simp [Sheet.reduce_append, Sheet.reduce_atRules atRules]
  rw [render, Sheet.reduce_append, Sheet.render_append, Sheet.reduce_rules, kept]

/-- A rule of the palette, a rule without colors and one with nested brackets. -/
def sampleRules : List Rule := [
  ⟨".main-color .palatte-red", [⟨"color", "red"⟩]⟩,
  ⟨".box", [⟨"padding", "0 4px"⟩, ⟨"width", []⟩]⟩,
  ⟨".btn:hover > .icon", [⟨"box-shadow", "0 0 calc(1px + (.5em)) rgba(0, 0, 0, 15%)"⟩,
    ⟨"margin", "1px"⟩, ⟨"background-color", "#FFF !important"⟩]⟩]

/-- A sheet that begins as only a first sheet may, with a declaration that is none. -/
def sampleSheet : Text := "@charset 'utf-8'; a \x7b color: red; broken \x7d"

theorem reduceToColors_append_sample : (∀ r ∈ sampleRules, r.Plain) ∧
    reduceToColors (Sheet.render (sampleRules.map .rule) ++ sampleSheet) =
      .ok (Sheet.render [
        .rule ⟨".btn:hover > .icon", [⟨"box-shadow", "0 0 calc(1px + (.5em)) rgba(0, 0, 0, 15%)"⟩,
          ⟨"background-color", "#FFF !important"⟩]⟩,
        .rule ⟨"a", [⟨"color", "red"⟩]⟩]) := by
  have plain : ∀ r ∈ sampleRules, r.Plain := by decide +kernel
  have known : reduceToColors sampleSheet =
      .ok (Sheet.render [.rule ⟨"a", [⟨"color", "red"⟩]⟩]) := by decide +kernel
  have kept : sampleRules.filterMap Rule.colors? = [⟨".btn:hover > .icon",
      [⟨"box-shadow", "0 0 calc(1px + (.5em)) rgba(0, 0, 0, 15%)"⟩,
        ⟨"background-color", "#FFF !important"⟩]⟩] := by decide +kernel
  have all := reduceToColors_append plain known
  rw [kept, ← Sheet.render_append] at all
  exact ⟨plain, all⟩

end Css
end ColorTheme
