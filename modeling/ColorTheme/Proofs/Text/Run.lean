import ColorTheme.Text.Search
import Mathlib.Data.List.Infix

/-!
Where runs of characters end and where lines are cut. -/
namespace ColorTheme.Text

theorem dropWhile_closed (continues : Char → Bool) (text : Text) :
    (text.dropWhile continues).head?.any continues = false := by
  have first := List.head?_dropWhile_not continues text
  cases known : (text.dropWhile continues).head? with
  | none => rfl
  | some c => simpa [known] using first

theorem run_append {continues : Char → Bool} {run rest : Text} (inner : ∀ c ∈ run, continues c = true)
    (closed : rest.head?.any continues = false) :
    (run ++ rest).takeWhile continues = run ∧ (run ++ rest).dropWhile continues = rest := by
  rw [List.takeWhile_append_of_pos inner, List.dropWhile_append_of_pos inner]
  cases rest with
  | nil => simp
  | cons c rest =>
    have stops : continues c = false := closed
    simp [stops]

/-- A character that the beginning of a text does not hold stands behind it. -/
theorem split_behind {c : Char} {start tail front rest : Text}
    (whole : start ++ tail = front ++ c :: rest) (other : c ∉ start) :
    ∃ more, front = start ++ more ∧ tail = more ++ c :: rest := by
  rcases List.append_eq_append_iff.mp whole with ⟨more, split, same⟩ | ⟨more, split, same⟩
  · exact ⟨more, split, same⟩
  · cases more with
    | nil => exact ⟨[], by simp [split], by simp [same]⟩
    | cons d more =>
      obtain ⟨rfl, _⟩ := List.cons.inj same
      exact absurd (by simp [split]) other

/-- A character that the end of a text does not hold stands in front of it. -/
theorem split_before {c : Char} {start tail front rest : Text}
    (whole : start ++ tail = front ++ c :: rest) (other : c ∉ tail) :
    ∃ more, start = front ++ c :: more := by
  rcases List.append_eq_append_iff.mp whole with ⟨more, _, same⟩ | ⟨more, split, same⟩
  · exact absurd (by simp [same]) other
  · cases more with
    | nil =>
      rw [List.nil_append] at same
      exact absurd (same ▸ List.mem_cons_self) other
    | cons d more =>
      obtain ⟨rfl, _⟩ := List.cons.inj same
      exact ⟨more, split⟩

theorem dropWhile_of_none {p : Char → Bool} {text : Text} (missed : ∀ c ∈ text, p c = false) :
    text.dropWhile p = text := by
  cases text with
  | nil => rfl
  | cons c rest => simp [missed c List.mem_cons_self]

theorem trim_solid {text : Text} (solid : ∀ c ∈ text, isBlank c = false) : trim text = text := by
  have reversed : text.reverse.dropWhile isBlank = text.reverse :=
    dropWhile_of_none fun c member => solid c (List.mem_reverse.mp member)
  rw [trim, trimStart, dropWhile_of_none solid, trimEnd, reversed, List.reverse_reverse]

theorem after?_append (start rest : Text) : after? start (start ++ rest) = some rest :=
  after?_eq_some.mpr rfl

theorem after?_eq_none {start text : Text} : after? start text = none ↔ ¬start <+: text := by
  rw [Option.eq_none_iff_forall_ne_some]
  constructor
  · rintro missed ⟨rest, whole⟩
    exact missed rest (after?_eq_some.mpr whole.symm)
  · intro missed rest found
    exact missed ⟨rest, (after?_eq_some.mp found).symm⟩

/-- The text before the first needle, which begins nowhere earlier, and the text after it. -/
theorem cut?_iff {needle text head tail : Text} (filled : needle ≠ []) :
    cut? needle text = some (head, tail) ↔
      text = head ++ (needle ++ tail) ∧ ¬ needle <:+: (head ++ needle).dropLast := by
  induction text generalizing head with
  | nil => simp [cut?, filled]
  | cons c rest ih =>
    cases here : after? needle (c :: rest) with
    | some behind =>
      have found : cut? needle (c :: rest) = some ([], behind) := by simp [cut?, here]
      have whole := after?_eq_some.mp here
      rw [found]
      constructor
      · intro same
        cases same
        refine ⟨whole, fun inside => ?_⟩
        have short := inside.length_le
        have long := List.length_pos_iff.mpr filled
        rw [List.nil_append, List.length_dropLast] at short
        omega
      · rintro ⟨split, first⟩
        cases head with
        | nil => rw [List.append_cancel_left (whole.symm.trans split)]
        | cons d head =>
          -- The needle that stands here ends before the one behind `head` does.
          refine absurd ?_ first
          have inner : needle <+: (d :: head ++ needle).dropLast := by
            have both : needle <+: d :: head ++ needle ++ tail := by
              rw [List.append_assoc, ← split, whole]
              exact List.prefix_append needle behind
            refine List.prefix_of_prefix_length_le both ?_ ?_
            · exact (List.dropLast_prefix _).trans (List.prefix_append _ tail)
            · simp
          exact inner.isInfix
    | none =>
      have step : cut? needle (c :: rest) =
          (cut? needle rest).map fun parts => (c :: parts.1, parts.2) := by simp [cut?, here]
      have missed : ¬ needle <+: c :: rest := after?_eq_none.mp here
      rw [step, Option.map_eq_some_iff]
      have shorter : ∀ head : Text, (c :: head ++ needle).dropLast = c :: (head ++ needle).dropLast :=
        fun head => List.dropLast_cons_of_ne_nil (by simp [filled])
      constructor
      · rintro ⟨⟨front, behind⟩, found, same⟩
        cases same
        obtain ⟨rfl, first⟩ := ih.mp found
        refine ⟨rfl, fun inside => ?_⟩
        rw [shorter, List.infix_cons_iff] at inside
        refine inside.elim (fun start => missed (start.trans ?_)) first
        rw [← List.append_assoc, ← List.cons_append]
        exact ((List.prefix_cons_inj c).mpr (List.dropLast_prefix _)).trans (List.prefix_append _ _)
      · rintro ⟨split, first⟩
        cases head with
        | nil => exact absurd ⟨tail, split.symm⟩ missed
        | cons d head =>
          obtain ⟨rfl, later⟩ := List.cons.inj split
          rw [shorter, List.infix_cons_iff, not_or] at first
          exact ⟨(head, tail), ih.mpr ⟨later, first.2⟩, rfl⟩

theorem cut?_eq_none {needle text : Text} (filled : needle ≠ []) :
    cut? needle text = none ↔ ¬ needle <:+: text := by
  induction text with
  | nil => simp [cut?, filled]
  | cons c rest ih =>
    rw [List.infix_cons_iff, not_or, ← ih, ← after?_eq_none]
    cases here : after? needle (c :: rest) <;> simp [cut?, here]

theorem cut?_char {c : Char} {text head tail : Text} :
    cut? [c] text = some (head, tail) ↔ c ∉ head ∧ text = head ++ c :: tail := by
  rw [cut?_iff (List.cons_ne_nil c []), List.dropLast_concat, List.singleton_infix_iff]
  exact and_comm

theorem cutLast?_eq_append {c : Char} {text head tail : Text}
    (cut : cutLast? c text = some (head, tail)) : text = head ++ c :: tail := by
  induction text generalizing head with
  | nil => contradiction
  | cons d rest ih =>
    unfold cutLast? at cut
    split at cut
    · rename_i inner later known
      cases cut
      rw [ih known]
      rfl
    · split at cut
      · rename_i same
        cases cut
        rw [same]
        rfl
      · contradiction

theorem cutLast?_eq_none {c : Char} {text : Text} : cutLast? c text = none ↔ c ∉ text := by
  induction text with
  | nil => simp [cutLast?]
  | cons d rest ih =>
    unfold cutLast?
    cases known : cutLast? c rest with
    | none =>
      have clean := ih.mp known
      by_cases same : d = c
      · simp [same]
      · simp [same, clean, Ne.symm same]
    | some cut =>
      have inside : c ∈ rest := by simpa [known] using ih
      simp [inside]

theorem cutLast?_clean {c : Char} {text head tail : Text}
    (cut : cutLast? c text = some (head, tail)) : c ∉ tail := by
  induction text generalizing head with
  | nil => contradiction
  | cons d rest ih =>
    unfold cutLast? at cut
    split at cut
    · rename_i known
      cases cut
      exact ih known
    · rename_i missed
      split at cut
      · cases cut
        exact cutLast?_eq_none.mp missed
      · contradiction

theorem cutLast?_append {c : Char} {tail : Text} (other : c ∉ tail) (head : Text) :
    cutLast? c (head ++ c :: tail) = some (head, tail) := by
  induction head with
  | nil => simp [cutLast?, cutLast?_eq_none.mpr other]
  | cons d head ih => simp [cutLast?, ih]

theorem cutLineLast?_eq_append {stop : Char} {text head tail : Text}
    (cut : cutLineLast? stop text = some (head, tail)) : text = head ++ stop :: tail := by
  obtain ⟨⟨_, behind⟩, known, same⟩ := Option.map_eq_some_iff.mp cut
  cases same
  have line := cutLast?_eq_append known
  calc text
    _ = text.takeWhile (· ≠ '\n') ++ text.dropWhile (· ≠ '\n') :=
      List.takeWhile_append_dropWhile.symm
    _ = head ++ stop :: (behind ++ text.dropWhile (· ≠ '\n')) := by
      rw [line, List.append_assoc, List.cons_append]

/-- A text is cut at a stop on its first line behind which the line holds no other. -/
theorem cutLineLast?_iff {stop : Char} (other : stop ≠ '\n') {text head tail : Text} :
    cutLineLast? stop text = some (head, tail) ↔
      '\n' ∉ head ∧ stop ∉ tail.takeWhile (· ≠ '\n') ∧ text = head ++ stop :: tail := by
  constructor
  · intro cut
    obtain ⟨⟨_, behind⟩, known, same⟩ := Option.map_eq_some_iff.mp cut
    cases same
    have line := cutLast?_eq_append known
    have inner : ∀ c ∈ head ++ stop :: behind, decide (c ≠ '\n') = true :=
      List.all_eq_true.mp (line ▸ List.all_takeWhile)
    refine ⟨fun feed => absurd (inner _ (List.mem_append_left _ feed)) (by decide), ?_,
      cutLineLast?_eq_append cut⟩
    have behindInner : ∀ c ∈ behind, decide (c ≠ '\n') = true := fun c member =>
      inner c (List.mem_append_right _ (List.mem_cons_of_mem stop member))
    rw [(run_append behindInner (dropWhile_closed (fun c => decide (c ≠ '\n')) text)).1]
    exact cutLast?_clean known
  · rintro ⟨single, clean, rfl⟩
    have inner : ∀ c ∈ head ++ [stop], decide (c ≠ '\n') = true := by
      intro c member
      rcases List.mem_append.mp member with earlier | last
      · exact decide_eq_true fun same => single (same ▸ earlier)
      · exact decide_eq_true (List.mem_singleton.mp last ▸ other)
    have whole : head ++ stop :: tail = (head ++ [stop]) ++ tail := by simp
    simp only [cutLineLast?, whole, List.takeWhile_append_of_pos inner,
      List.dropWhile_append_of_pos inner]
    simp only [List.append_assoc, List.singleton_append, cutLast?_append clean, Option.map_some,
      List.takeWhile_append_dropWhile]

theorem cutLineLast?_line {stop : Char} {line : Text} (single : '\n' ∉ line) (other : stop ≠ '\n')
    (rest : Text) :
    cutLineLast? stop (line ++ stop :: '\n' :: rest) = some (line, '\n' :: rest) :=
  (cutLineLast?_iff other).mpr ⟨single, by simp, rfl⟩

end ColorTheme.Text
