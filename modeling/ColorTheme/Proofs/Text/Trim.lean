import ColorTheme.Proofs.Text.Run
import Mathlib.Data.List.TakeWhile

/-!
What trimming leaves of a text. -/
namespace ColorTheme.Text

theorem trimStart_cons_of_solid {c : Char} (solid : isBlank c = false) (rest : Text) :
    trimStart (c :: rest) = c :: rest := by simp [trimStart, solid]

theorem trim_space_cons (text : Text) : trim (' ' :: text) = trim text := by
  have blank : isBlank ' ' = true := by decide
  simp [trim, trimStart, blank]

theorem trimEnd_space (text : Text) : trimEnd (text ++ [' ']) = trimEnd text := by
  have blank : isBlank ' ' = true := by decide
  simp [trimEnd, blank]

theorem trim_between {front back : Text} (before : ∀ c ∈ front, isBlank c = true)
    (after : ∀ c ∈ back, isBlank c = true) (text : Text) :
    trim (front ++ text ++ back) = trim text := by
  have ends : ∀ inner, trimEnd (inner ++ back) = trimEnd inner := by
    intro inner
    rw [trimEnd, trimEnd, List.reverse_append, List.dropWhile_append_of_pos]
    exact fun c member => after c (List.mem_reverse.mp member)
  have starts : trimStart back = [] := List.dropWhile_eq_nil_iff.mpr after
  rw [trim, trim, List.append_assoc, trimStart, List.dropWhile_append_of_pos before]
  cases empty : (trimStart text).isEmpty with
  | true =>
    have spaces : text.dropWhile isBlank = [] := List.isEmpty_iff.mp empty
    rw [List.dropWhile_append, spaces, if_pos List.isEmpty_nil, trimStart, spaces]
    exact congrArg trimEnd starts
  | false =>
    have filled : ¬(text.dropWhile isBlank).isEmpty = true := by
      rw [Bool.not_eq_true]
      exact empty
    rw [List.dropWhile_append, if_neg filled]
    exact ends _

theorem trim_length_le (text : Text) : (trim text).length ≤ text.length := by
  have start := (List.dropWhile_sublist isBlank (l := text)).length_le
  have stop := (List.dropWhile_sublist isBlank (l := (trimStart text).reverse)).length_le
  rw [List.length_reverse] at stop
  rw [trim, trimEnd, List.length_reverse]
  exact Nat.le_trans stop start

theorem trim_eq_iff {text : Text} : trim text = text ↔
    text.head?.any isBlank = false ∧ text.getLast?.any isBlank = false := by
  constructor
  · intro trimmed
    refine ⟨?_, ?_⟩
    · rw [← Bool.not_eq_true]
      intro blank
      cases text with
      | nil => contradiction
      | cons c rest =>
        have start : ∀ d ∈ [c], isBlank d = true := by simpa using blank
        have shorter := trim_between start (List.forall_mem_nil _) rest
        rw [List.append_nil, List.singleton_append, trimmed] at shorter
        have bound := trim_length_le rest
        rw [← shorter, List.length_cons] at bound
        omega
    · rw [← Bool.not_eq_true]
      intro blank
      rcases List.eq_nil_or_concat text with rfl | ⟨rest, c, rfl⟩
      · contradiction
      · rw [List.concat_eq_append] at trimmed blank
        have stop : ∀ d ∈ [c], isBlank d = true := by simpa using blank
        have shorter := trim_between (List.forall_mem_nil _) stop rest
        rw [List.nil_append, trimmed] at shorter
        have bound := trim_length_le rest
        rw [← shorter, List.length_append, List.length_singleton] at bound
        omega
  · rintro ⟨first, last⟩
    have kept : ∀ {text : Text}, text.head?.any isBlank = false → text.dropWhile isBlank = text := by
      intro text solid
      cases text with
      | nil => rfl
      | cons c rest => exact List.dropWhile_cons_of_neg (by simpa using solid)
    rw [trim, trimStart, kept first, trimEnd, kept, List.reverse_reverse]
    rwa [List.head?_reverse]

theorem trimEnd_begins (text : Text) : trimEnd text <+: text := by
  have suffix := (List.dropWhile_suffix isBlank (l := text.reverse)).reverse
  rwa [List.reverse_reverse] at suffix

theorem trim_subset (text : Text) : trim text ⊆ text :=
  fun _ member => (List.dropWhile_suffix isBlank).subset ((trimEnd_begins _).subset member)

theorem trim_trim (text : Text) : trim (trim text) = trim text := by
  refine trim_eq_iff.mpr ⟨?_, ?_⟩
  · obtain ⟨cut, whole⟩ := trimEnd_begins (trimStart text)
    have first := dropWhile_closed isBlank text
    rw [show text.dropWhile isBlank = trim text ++ cut from whole.symm] at first
    cases known : trim text with
    | nil => rfl
    | cons c rest => rwa [known] at first
  · rw [trim, trimEnd, List.getLast?_reverse]
    exact dropWhile_closed isBlank _

end ColorTheme.Text
