import ColorTheme.Proofs.Css.Reduction
import ColorTheme.Proofs.Notation
import ColorTheme.Proofs.Pattern
import ColorTheme.Proofs.Text.Letter
import Mathlib.Data.List.Forall2

/-!
The classifier of colors against its grammar. -/
namespace ColorTheme

open Text

namespace Text

theorem isSome_head?_pieces {m : Matcher α} {before : Option Char} {text : Text} :
    ((pieces m 0 before text).filterMap Sum.getRight?).head?.isSome = true ↔
      ∃ front behind, text = front ++ behind ∧
        (behind ≠ [] ∧ (m (front.getLast?.or before) behind).isSome = true) := by
  induction text generalizing before with
  | nil =>
    simp only [pieces, List.filterMap_nil, List.head?_nil, Option.isSome_none, Bool.false_eq_true,
      false_iff]
    rintro ⟨front, behind, whole, filled, _⟩
    exact filled (List.append_eq_nil_iff.mp whole.symm).2
  | cons c rest ih =>
    rw [exists_place_cons (P := fun before here => here ≠ [] ∧ (m before here).isSome = true),
      ← ih, pieces]
    cases known : m before (c :: rest) with
    | some hit => simp
    | none => simp

theorem closesLine_iff {rest : Text} : (rest.takeWhile (· ≠ '\n')).contains ')' = true ↔
    ∃ inside behind, rest = inside ++ ')' :: behind ∧ '\n' ∉ inside := by
  rw [List.contains_iff_mem]
  constructor
  · intro member
    obtain ⟨inside, more, line⟩ := List.append_of_mem member
    refine ⟨inside, more ++ rest.dropWhile (· ≠ '\n'), ?_, ?_⟩
    · calc rest
        _ = rest.takeWhile (· ≠ '\n') ++ rest.dropWhile (· ≠ '\n') :=
          List.takeWhile_append_dropWhile.symm
        _ = inside ++ ')' :: (more ++ rest.dropWhile (· ≠ '\n')) := by
          rw [line, List.append_assoc, List.cons_append]
    · intro feed
      have inner : '\n' ∈ rest.takeWhile (· ≠ '\n') := line ▸ List.mem_append_left _ feed
      simpa using List.all_eq_true.mp List.all_takeWhile _ inner
  · rintro ⟨inside, behind, rfl, single⟩
    have inner : ∀ c ∈ inside, decide (c ≠ '\n') = true := fun c member =>
      decide_eq_true fun same => single (same ▸ member)
    rw [List.takeWhile_append_of_pos inner]
    simp

end Text

/-- `#` and hexadecimal digits, as many as a color has. -/
def IsHexColor (value : Text) : Prop :=
  ∃ digits, value = '#' :: digits ∧ digits.length ∈ [3, 4, 6, 8] ∧ ∀ c ∈ digits, isHexDigit c = true

/-- The name of a color function, which no word character precedes, and brackets that are closed on
the same line. -/
def CallsColorFunction (value : Text) : Prop :=
  ∃ name ∈ colorFunctions, ∃ front inside behind,
    value = front ++ (name ++ '(' :: (inside ++ ')' :: behind)) ∧
      (∀ c ∈ front.getLast?, isWordChar c = false) ∧ '\n' ∉ inside

theorem byteLength_of_isHexDigit {digits : Text} (hex : ∀ c ∈ digits, isHexDigit c = true) :
    byteLength digits = digits.length := by
  have width : ∀ start, digits.foldl (fun width c => width + byteWidth c) start =
      start + digits.length := by
    induction digits with
    | nil => exact fun start => rfl
    | cons c digits ih =>
      intro start
      obtain ⟨first, hex⟩ := List.forall_mem_cons.mp hex
      have single : byteWidth c = 1 := by
        have low := isAsciiAlphanumeric_lt (isAsciiAlphanumeric_of_isHexDigit first)
        exact Char.utf8Size_eq_one_iff.mpr (Nat.le_of_lt_succ low)
      rw [List.foldl_cons, ih hex, single, List.length_cons]
      omega
  rw [byteLength, width, Nat.zero_add]

theorem isHexColor_iff {digits : Text} : isHexColor digits = true ↔
    digits.length ∈ [3, 4, 6, 8] ∧ ∀ c ∈ digits, isHexDigit c = true := by
  rw [isHexColor, Bool.and_eq_true, List.all_eq_true, List.contains_iff_mem]
  constructor
  · rintro ⟨length, hex⟩
    rw [byteLength_of_isHexDigit hex] at length
    exact ⟨length, hex⟩
  · rintro ⟨length, hex⟩
    rw [byteLength_of_isHexDigit hex]
    exact ⟨length, hex⟩

theorem startsCall_iff {name : Text} {before : Option Char} {text : Text} :
    startsCall name before text = true ↔ (∀ c ∈ before, isWordChar c = false) ∧
      ∃ inside behind, text = name ++ '(' :: (inside ++ ')' :: behind) ∧ '\n' ∉ inside := by
  rw [startsCall, Bool.and_eq_true, Option.any_eq_true]
  apply and_congr
  · cases before <;> simp [atBoundary]
  · constructor
    · rintro ⟨rest, opened, closed⟩
      obtain ⟨inside, behind, rfl, single⟩ := closesLine_iff.mp closed
      refine ⟨inside, behind, ?_, single⟩
      rw [after?_eq_some.mp opened, List.append_assoc]
      rfl
    · rintro ⟨inside, behind, rfl, single⟩
      refine ⟨inside ++ ')' :: behind, after?_eq_some.mpr ?_, closesLine_iff.mpr ⟨_, _, rfl, single⟩⟩
      rw [List.append_assoc]
      rfl

theorem callsColorFunction_iff {value : Text} :
    callsColorFunction value = true ↔ CallsColorFunction value := by
  rw [callsColorFunction, List.any_eq_true]
  apply exists_congr
  intro name
  apply and_congr_right
  intro _
  rw [find?, findAll, isSome_head?_pieces]
  have hit : ∀ before here, (if startsCall name before here then some ((), here) else none).isSome =
      startsCall name before here := by
    intro before here
    split <;> simp [*]
  simp only [hit, Option.or_none, startsCall_iff]
  constructor
  · rintro ⟨front, _, rfl, _, edge, inside, behind, rfl, single⟩
    exact ⟨front, inside, behind, rfl, edge, single⟩
  · rintro ⟨front, inside, behind, rfl, edge, single⟩
    exact ⟨front, _, rfl, by simp, edge, inside, behind, rfl, single⟩

namespace Classifier

section

variable {engine : PatternEngine} {patterns : List Text} {classifier : Classifier}

theorem ofPatterns_eq_ok :
    ofPatterns engine patterns = .ok classifier ↔
      patterns.map engine = classifier.custom.map some := by
  obtain ⟨custom⟩ := classifier
  induction patterns generalizing custom with
  | nil => rw [ofPatterns, Except.ok.injEq, mk.injEq, List.map_nil, eq_comm, eq_comm (a := []),
      List.map_eq_nil_iff]
  | cons pattern patterns ih =>
    rw [ofPatterns, List.map_cons]
    constructor
    · intro taken
      split at taken
      · contradiction
      · rename_i test known
        cases rest : ofPatterns engine patterns with
        | error e =>
          rw [rest] at taken
          contradiction
        | ok others =>
          rw [rest] at taken
          cases taken
          rw [known, List.map_cons, (ih others.custom).mp rest]
    · intro valid
      cases custom with
      | nil => contradiction
      | cons test others =>
        obtain ⟨known, valid⟩ := List.cons.inj valid
        rw [known, (ih others).mpr valid]
        rfl

theorem custom_iff (valid : ofPatterns engine patterns = .ok classifier) {value : Text} :
    classifier.custom.any (· value) = true ↔
      ∃ pattern ∈ patterns, ∃ test, engine pattern = some test ∧ test value = true := by
  have made : ∀ test, test ∈ classifier.custom ↔ ∃ pattern ∈ patterns, engine pattern = some test := by
    intro test
    rw [← List.mem_map_of_injective (fun _ _ => Option.some.inj), ← ofPatterns_eq_ok.mp valid,
      List.mem_map]
  simp only [List.any_eq_true, made]
  constructor
  · rintro ⟨test, ⟨pattern, listed, known⟩, accepted⟩
    exact ⟨pattern, listed, test, known, accepted⟩
  · rintro ⟨pattern, listed, test, known, accepted⟩
    exact ⟨test, ⟨pattern, listed, known⟩, accepted⟩

end

theorem hexColor_or {value : Text} {other : Bool} :
    (match value with
      | '#' :: digits => isHexColor digits
      | _ => other) = true ↔ IsHexColor value ∨ value.head? ≠ some '#' ∧ other = true := by
  split
  · rename_i digits
    simp [isHexColor_iff, IsHexColor]
  · rename_i plain
    have other : ¬ IsHexColor value := fun ⟨digits, whole, _⟩ => plain digits whole
    have first : value.head? ≠ some '#' := by
      intro first
      obtain ⟨rest, whole⟩ := List.head?_eq_some_iff.mp first
      exact plain rest whole
    simp [other, first]

/-- What the tests accept that run one after another, whatever engine reads the patterns. -/
theorem isColor_grammar {engine : PatternEngine} {patterns : List Text} {classifier : Classifier}
    (valid : ofPatterns engine patterns = .ok classifier) (value : Text) :
    classifier.isColor value = true ↔
      ("rgb" : Text) <:+: value ∨
        value ≠ [] ∧ ¬ ("px" : Text) <:+: value ∧
          (("colorPalette" : Text) <:+: value ∨ ("fade" : Text) <:+: value ∨ IsHexColor value ∨
            value.head? ≠ some '#' ∧
              (Notation.IsNumeric value ∨ CallsColorFunction value ∨
                ∃ pattern ∈ patterns, ∃ test, engine pattern = some test ∧ test value = true)) := by
  have missed : ∀ {needle : Text}, ¬ needle <:+: value → includes needle value = false := by
    intro needle absent
    rw [← Bool.not_eq_true]
    exact mt includes_iff.mp absent
  by_cases rgb : ("rgb" : Text) <:+: value
  · simp only [isColor, includes_iff.mpr rgb, if_true, rgb, true_or]
  by_cases empty : value = []
  · subst empty
    simp only [isColor, missed rgb, List.isEmpty_nil, Bool.true_or, if_true, Bool.false_eq_true,
      if_false, rgb, ne_eq, not_true_eq_false, false_and, or_self]
  by_cases pixels : ("px" : Text) <:+: value
  · simp only [isColor, missed rgb, includes_iff.mpr pixels, Bool.or_true, if_true,
      Bool.false_eq_true, if_false, rgb, pixels, not_true_eq_false, false_and, and_false, or_self]
  have filled : value.isEmpty = false := by simpa using empty
  have deferred : deferredMarkers.any (includes · value) = true ↔
      ("colorPalette" : Text) <:+: value ∨ ("fade" : Text) <:+: value := by
    simp only [deferredMarkers, List.any_cons, List.any_nil, Bool.or_false, Bool.or_eq_true,
      includes_iff]
  simp only [isColor, missed rgb, missed pixels, filled, Bool.or_false, Bool.false_eq_true, if_false,
    rgb, pixels, empty, false_or, ne_eq, not_false_eq_true, true_and]
  split
  · rename_i marked
    have marked := deferred.mp marked
    rw [← or_assoc]
    simp only [marked, true_or]
  · rename_i plain
    rw [← or_assoc, or_iff_right (mt deferred.mpr plain)]
    refine hexColor_or.trans ?_
    rw [Bool.or_eq_true, Bool.or_eq_true, Notation.isNumeric_iff, custom_iff valid,
      callsColorFunction_iff, or_assoc, or_comm (a := ∃ pattern ∈ patterns, _)]

/-- A word that only a pattern of the user's makes a color, and a color in capital letters. -/
theorem isColor_grammar_transparent : ∃ classifier,
    ofPatterns Pattern.compile? ["^transparent$"] = .ok classifier ∧
      classifier.isColor "transparent" = true ∧
      classifier.isColor "HSLA(120deg, 100%, 50% / .3)" = true := by
  have known : (Pattern.compile? "^transparent$").any (· "transparent") = true := by
    decide +kernel
  rw [Option.any_eq_true] at known
  obtain ⟨test, compiled, accepted⟩ := known
  have valid : ofPatterns Pattern.compile? ["^transparent$"] = .ok ⟨[test]⟩ :=
    ofPatterns_eq_ok.mpr (by rw [List.map_singleton, compiled, List.map_singleton])
  refine ⟨⟨[test]⟩, valid, (isColor_grammar valid _).mpr ?_, (isColor_grammar valid _).mpr ?_⟩
  · refine .inr ⟨by decide, by decide, .inr (.inr (.inr ⟨by decide, .inr (.inr ?_)⟩))⟩
    exact ⟨_, List.mem_singleton_self _, test, compiled, accepted⟩
  · refine .inr ⟨by decide, by decide, .inr (.inr (.inr ⟨by decide, .inl ?_⟩))⟩
    exact Notation.isNumeric_iff.mp (by decide +kernel)

end Classifier
end ColorTheme
