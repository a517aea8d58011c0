import ColorTheme.Proofs.Bindings
import ColorTheme.Proofs.Text.Letter
import ColorTheme.Proofs.Text.Word

/-!
The order of backward substitution. A literal is replaced where it stands as a whole word. The
symbol of a shade begins with letters, which continue a word in front of it; where no two different
literals touch, no literal is lost or made by that, so the replacements may come in any order. -/
namespace ColorTheme

namespace Shade

theorem mem_of_split? {name base ordinal : Text} (split : split? name = some (base, ordinal)) :
    base ⊆ name ∧ ordinal ⊆ name := by
  obtain ⟨⟨head, tail⟩, cut, rest⟩ := Option.bind_eq_some_iff.mp split
  have whole := Text.cutLast?_eq_append cut
  obtain ⟨_, same⟩ := Option.ite_none_left_eq_some.mp rest
  cases same
  rw [whole]
  exact ⟨List.subset_append_left _ _,
    List.subset_append_of_subset_right _ (List.subset_cons_self _ _)⟩

theorem expression?_eq_some {name expression : Text} (found : expression? name = some expression) :
    ∃ base ordinal, split? name = some (base, ordinal) ∧
      expression = "color(~`colorPalette(\"@\x7b" ++
        withoutSigil (if base = primaryFamily then primaryVariable else base) ++ "\x7d\", " ++
          ordinal ++ ")`)" := by
  obtain ⟨⟨base, ordinal⟩, split, same⟩ := Option.map_eq_some_iff.mp found
  exact ⟨base, ordinal, split, same.symm⟩

end Shade

namespace Substitution

open Text (Layout Marked Stands)
open Text.Layout

/-- How a symbol begins: with the sign of a variable or with the call for a shade. -/
def Opens (symbol : Text) : Prop := ['@'] <+: symbol ∨ ("color(" : Text) <+: symbol

/-- The signs of an expression that no name of a shade has to hold. -/
def expressionSigns : Text := "color(~`colorPalette(\"@\x7bprimary-color\x7d\", )`)"

theorem mem_symbolOf {name : Text} {c : Char} (member : c ∈ symbolOf name) :
    c ∈ name ∨ c ∈ expressionSigns := by
  unfold symbolOf at member
  cases found : Shade.expression? name with
  | none =>
    rw [found, Option.getD_none] at member
    exact .inl member
  | some expression =>
    obtain ⟨base, ordinal, split, rfl⟩ := Shade.expression?_eq_some found
    obtain ⟨inBase, inOrdinal⟩ := Shade.mem_of_split? split
    have signs : ∀ {part : Text}, (part.all fun c => expressionSigns.contains c) = true → c ∈ part →
        c ∈ name ∨ c ∈ expressionSigns := fun known inside =>
      .inr (List.contains_iff_mem.mp (List.all_eq_true.mp known c inside))
    rw [found, Option.getD_some] at member
    simp only [List.mem_append] at member
    rcases member with (((opening | source) | middle) | number) | closing
    · exact signs (by decide) opening
    · have inner := (List.dropWhile_sublist _).subset source
      split at inner
      · exact signs (by decide) inner
      · exact .inl (inBase inner)
    · exact signs (by decide) middle
    · exact .inl (inOrdinal number)
    · exact signs (by decide) closing

theorem symbolOf_opens {name : Text} (sign : ['@'] <+: name) (clean : '#' ∉ name) :
    Opens (symbolOf name) ∧ '#' ∉ symbolOf name := by
  refine ⟨?_, fun member => ?_⟩
  · cases found : Shade.expression? name with
    | none =>
      have plain : symbolOf name = name := by rw [symbolOf, found, Option.getD_none]
      rw [plain]
      exact .inl sign
    | some expression =>
      obtain ⟨base, ordinal, _, rfl⟩ := Shade.expression?_eq_some found
      rw [symbolOf, found, Option.getD_some]
      simp only [List.append_assoc]
      exact .inr (List.IsPrefix.trans (by decide) (List.prefix_append _ _))
  · rcases mem_symbolOf member with inside | inside
    · exact clean inside
    · exact absurd inside (by decide)

/-- The run of letters and digits behind a mark, once literals are respelled: it is the run that
was there, or it goes on into the call for a shade. -/
theorem takeWhile_respelled {l : Layout Text} {spell : Text → Text}
    (marked : ∀ q, .inr q ∈ l → ['#'] <+: q)
    (opens : ∀ q, .inr q ∈ l → spell q = q ∨ Opens (spell q)) :
    (write spell l).takeWhile Text.isAsciiAlphanumeric =
        (write id l).takeWhile Text.isAsciiAlphanumeric ∨
      'o' ∈ (write spell l).takeWhile Text.isAsciiAlphanumeric := by
  induction l with
  | nil => exact .inl rfl
  | cons item l ih =>
    have later := ih (fun q member => marked q (List.mem_cons_of_mem item member))
      fun q member => opens q (List.mem_cons_of_mem item member)
    cases item with
    | inl c =>
      rw [write_char, write_char, List.takeWhile_cons, List.takeWhile_cons]
      split
      · exact later.imp (congrArg (c :: ·)) (List.mem_cons_of_mem c)
      · exact .inl rfl
    | inr q =>
      obtain ⟨tail, rfl⟩ := marked q List.mem_cons_self
      have before :
          (write id (.inr (['#'] ++ tail) :: l)).takeWhile Text.isAsciiAlphanumeric = [] :=
        List.takeWhile_cons_of_neg (by decide)
      rw [before, write_place]
      rcases opens _ List.mem_cons_self with same | ⟨more, spelled⟩ | ⟨more, spelled⟩
      · rw [same]
        exact .inl (List.takeWhile_cons_of_neg (by decide))
      · rw [← spelled]
        exact .inl (List.takeWhile_cons_of_neg (by decide))
      · rw [← spelled]
        exact .inr (by simp [Text.isAsciiAlphanumeric])

/-- A compiled map whose literals are whole words and whose names hold none. -/
structure Restorable (compiled : Bindings) : Prop where
  names : ∀ name ∈ compiled.names, ['@'] <+: name ∧ '#' ∉ name
  literals : ∀ entry ∈ compiled.entries, Marked '#' Text.isHexDigit entry.2
  distinct : (compiled.entries.map Prod.snd).Nodup

def symbolAt (compiled : Bindings) (literal : Text) : Text :=
  (((compiled.entries.map Prod.swap).lookup literal).map symbolOf).getD literal

/-- The characters of a text and the literals that stand in it as whole words. -/
def literalLayout (compiled : Bindings) (css : Text) : Layout Text :=
  Text.pieces (Text.wordOf '#' Text.isAsciiAlphanumeric (compiled.entries.map Prod.snd)) 0 none css

theorem mem_literals {compiled : Bindings} {css literal : Text}
    (place : .inr literal ∈ literalLayout compiled css) :
    literal ∈ compiled.entries.map Prod.snd :=
  Text.mem_words_of_pieces place

section Restore

variable {compiled : Bindings} (restorable : Restorable compiled)

include restorable

theorem symbolAt_of_mem {entry : Text × Text} (member : entry ∈ compiled.entries) :
    symbolAt compiled entry.2 = symbolOf entry.1 := by
  have distinct : ((compiled.entries.map Prod.swap).map Prod.fst).Nodup := by
    simpa [List.map_map, Function.comp_def] using restorable.distinct
  have found := Bindings.lookup_of_mem distinct (List.mem_map_of_mem (f := Prod.swap) member)
  rw [symbolAt, show entry.2 = entry.swap.1 from rfl, found]
  rfl

theorem symbolAt_opens {literal : Text} (known : literal ∈ compiled.entries.map Prod.snd) :
    Opens (symbolAt compiled literal) ∧ '#' ∉ symbolAt compiled literal := by
  obtain ⟨entry, member, rfl⟩ := List.mem_map.mp known
  obtain ⟨sign, clean⟩ := restorable.names entry.1 (List.mem_map_of_mem member)
  rw [symbolAt_of_mem restorable member]
  exact symbolOf_opens sign clean

theorem Restorable.hex {literal tail : Text} (known : literal ∈ compiled.entries.map Prod.snd)
    (spelled : literal = '#' :: tail) : ∀ c ∈ tail, Text.isHexDigit c = true := by
  obtain ⟨entry, member, rfl⟩ := List.mem_map.mp known
  obtain ⟨_, same, hex⟩ := restorable.literals entry member
  obtain ⟨_, rfl⟩ := List.cons.inj (same.symm.trans spelled)
  exact hex

theorem Restorable.marked {literal : Text} (known : literal ∈ compiled.entries.map Prod.snd) :
    Marked '#' Text.isAsciiAlphanumeric literal := by
  obtain ⟨entry, member, rfl⟩ := List.mem_map.mp known
  exact (restorable.literals entry member).mono Text.isAsciiAlphanumeric_of_isHexDigit

theorem Restorable.begins {literal : Text} (known : literal ∈ compiled.entries.map Prod.snd) :
    ['#'] <+: literal := by
  obtain ⟨tail, rfl, _⟩ := restorable.marked known
  exact ⟨tail, rfl⟩

theorem Restorable.perm {other : Bindings} (same : other.entries.Perm compiled.entries) :
    Restorable other where
  names name bound := restorable.names name ((same.map Prod.fst).mem_iff.mp bound)
  literals entry member := restorable.literals entry (same.mem_iff.mp member)
  distinct := (same.map Prod.snd).nodup_iff.mpr restorable.distinct

variable {css : Text}

/-- No literal begins at a character that the layout keeps, whatever was replaced behind it. -/
theorem literal_unmet {spell : Text → Text} {literal : Text} {c : Char} {rest : Layout Text}
    (known : literal ∈ compiled.entries.map Prod.snd)
    (between : Between id (symbolAt compiled) (literalLayout compiled css) spell)
    (suffix : .inl c :: rest <:+ literalLayout compiled css) :
    ¬ Stands literal Text.isAsciiAlphanumeric (c :: write spell rest) := by
  intro stands
  have marked := restorable.marked known
  obtain ⟨tail, spelled, inner⟩ := id marked
  rw [spelled, Text.stands_cons inner] at stands
  obtain ⟨rfl, run⟩ := stands
  have behind := (List.suffix_cons _ _).trans suffix
  have respelled : (write spell rest).takeWhile Text.isAsciiAlphanumeric = _ ∨ _ :=
    takeWhile_respelled (fun q place => restorable.begins (mem_literals (behind.subset place)))
      fun q place => (between q (behind.subset place)).imp_right fun new => by
        rw [new]
        exact (symbolAt_opens restorable (mem_literals (behind.subset place))).1
  rcases Text.suffix_pieces Text.wordOf_local suffix with
    ⟨_, text, same, rfl, missed⟩ | ⟨_, _, _, same, _⟩
  · cases same
    rw [run, Text.write_words] at respelled
    rcases respelled with same | letter
    · -- The word was in the text, so it was found there.
      have found : Text.wordOf '#' Text.isAsciiAlphanumeric (compiled.entries.map Prod.snd) none
          ('#' :: text) = some (literal, text.dropWhile Text.isAsciiAlphanumeric) :=
        Text.wordOf_eq_some.mpr
          ⟨known, by simp [spelled, same], marked, Text.dropWhile_closed _ text⟩
      rw [found] at missed
      contradiction
    · exact absurd (restorable.hex known spelled 'o' letter) (by decide)
  · contradiction

theorem symbol_unmet {literal other v text : Text}
    (known : literal ∈ compiled.entries.map Prod.snd)
    (replaced : other ∈ compiled.entries.map Prod.snd) (filled : v ≠ [])
    (inside : v <:+ symbolAt compiled other) :
    ¬ Stands literal Text.isAsciiAlphanumeric (v ++ text) := by
  rintro ⟨left, whole, _⟩
  obtain ⟨tail, spelled, _⟩ := restorable.marked known
  obtain ⟨c, v, rfl⟩ := List.exists_cons_of_ne_nil filled
  rw [spelled] at whole
  have first : c = '#' := (List.cons.inj whole).1
  exact (symbolAt_opens restorable replaced).2 (first ▸ inside.subset List.mem_cons_self)

variable (apart : ∀ first ∈ compiled.entries.map Prod.snd,
  ∀ second ∈ compiled.entries.map Prod.snd, first ≠ second → ¬ first ++ second <:+: css)

include apart

/-- A literal that has not been replaced is not continued, whatever was replaced behind it. -/
theorem literal_closed {spell : Text → Text} {literal : Text} {rest : Layout Text}
    (unchanged : spell literal = literal)
    (suffix : .inr literal :: rest <:+ literalLayout compiled css) :
    (write spell rest).head?.any Text.isAsciiAlphanumeric = false := by
  have known : ∀ {q k}, .inr q :: k <:+ literalLayout compiled css →
      q ∈ compiled.entries.map Prod.snd :=
    fun suffix => mem_literals (suffix.subset List.mem_cons_self)
  cases rest with
  | nil => rfl
  | cons item rest =>
    cases item with
    | inl c =>
      rcases Text.suffix_pieces Text.wordOf_local suffix with
        ⟨_, _, same, _⟩ | ⟨_, here, left, _, later, found⟩
      · contradiction
      · have goes : left = c :: write id rest := by
          rw [← Text.write_words left, ← later]
          rfl
        obtain ⟨_, _, _, closed⟩ := Text.wordOf_eq_some.mp found
        rw [goes] at closed
        exact closed
    | inr q =>
      have second := known ((List.suffix_cons _ _).trans suffix)
      have touching : literal ++ q <:+: css := by
        have inside : write id _ <:+ write id _ := write_suffix suffix
        rw [literalLayout, Text.write_words, write_place, write_place,
          ← List.append_assoc] at inside
        exact (List.prefix_append _ _).isInfix.trans inside.isInfix
      have same : literal = q := by
        by_contra different
        exact apart literal (known suffix) q second different touching
      obtain ⟨tail, spelled, _⟩ := restorable.marked (known suffix)
      rw [write_place, ← same, unchanged, spelled]
      rfl

theorem literal_settles {literal : Text} (known : literal ∈ compiled.entries.map Prod.snd) :
    Settles Text.isAsciiAlphanumeric id (symbolAt compiled) (literalLayout compiled css)
      literal := by
  intro spell between unchanged
  have marked := restorable.marked known
  have idle : Text.isAsciiAlphanumeric '#' = false := by decide
  have replaced : Text.replaceBounded (spell literal) (symbolAt compiled literal)
      Text.isAsciiAlphanumeric (write spell (literalLayout compiled css)) =
        write (fun q => if q = literal then symbolAt compiled literal else spell q)
          (literalLayout compiled css) :=
    replaceBounded_write idle (unchanged ▸ marked)
      (fun rest suffix => literal_closed restorable apart unchanged suffix) ?_ ?_
  · rwa [unchanged] at replaced
  · intro c rest suffix
    rw [unchanged]
    exact literal_unmet restorable known between suffix
  · intro q rest other suffix v filled inside
    have place := suffix.subset List.mem_cons_self
    rw [unchanged]
    rcases between q place with same | same
    · rw [same] at inside
      exact Text.not_stands_of_ne idle marked (restorable.marked (mem_literals place)) other
        (literal_closed restorable apart same suffix) filled inside
    · rw [same] at inside
      exact symbol_unmet restorable known (mem_literals place) filled inside

/-- Every literal that stands in the text becomes its symbol. -/
theorem restoreSymbols_layout : restoreSymbols compiled css =
    write (symbolAt compiled) (literalLayout compiled css) := by
  have steps := foldl_settles restorable.distinct
    (fun literal known => literal_settles restorable apart known) (fun _ _ => .inl rfl)
    fun _ _ => rfl
  rw [literalLayout, Text.write_words] at steps
  have entries : restoreSymbols compiled css =
      (compiled.entries.map Prod.snd).foldl (fun css literal => Text.replaceBounded (id literal)
        (symbolAt compiled literal) Text.isAsciiAlphanumeric css) css := by
    rw [List.foldl_map]
    refine List.foldl_ext _ _ css fun css entry member => ?_
    rw [symbolAt_of_mem restorable member]
    rfl
  rw [entries, steps]
  exact write_congr fun literal place => if_pos (mem_literals place)

end Restore

/-- The order of the bindings does not matter on the way back, if no two different literals touch
once the escaped calls are restored. -/
theorem backward_perm (css : Text) (calls : EscapedCalls) (compiled other : Bindings)
    (restorable : Restorable compiled) (same : other.entries.Perm compiled.entries)
    (apart : ∀ first ∈ compiled.entries.map Prod.snd, ∀ second ∈ compiled.entries.map Prod.snd,
      first ≠ second → ¬ first ++ second <:+: restoreCalls calls css) :
    backward css calls other = backward css calls compiled := by
  have literals := same.map Prod.snd
  have later := restorable.perm same
  have restored : restoreSymbols other (restoreCalls calls css) =
      restoreSymbols compiled (restoreCalls calls css) := by
    have layouts : literalLayout other (restoreCalls calls css) =
        literalLayout compiled (restoreCalls calls css) := by
      rw [literalLayout, literalLayout, Text.wordOf_congr fun word => literals.mem_iff]
    rw [restoreSymbols_layout restorable apart,
      restoreSymbols_layout later fun first known second listed =>
        apart first (literals.mem_iff.mp known) second (literals.mem_iff.mp listed), layouts]
    refine write_congr fun literal place => ?_
    obtain ⟨entry, member, rfl⟩ := List.mem_map.mp (mem_literals place)
    rw [symbolAt_of_mem restorable member, symbolAt_of_mem later (same.mem_iff.mpr member)]
  simp only [backward, restored]

/-- A literal that begins another one, a literal twice in a row and one that is continued, with
the symbol of a shade among them. -/
theorem backward_perm_beginnings :
    let css : Text := "a: #ab#ab #abc; #abcd;"
    let compiled : Bindings := ⟨[("@b", "#abc"), ("@primary-5", "#ab")]⟩
    let other : Bindings := ⟨[("@primary-5", "#ab"), ("@b", "#abc")]⟩
    Restorable compiled ∧ other.entries.Perm compiled.entries ∧
      (∀ first ∈ compiled.entries.map Prod.snd, ∀ second ∈ compiled.entries.map Prod.snd,
        first ≠ second → ¬ first ++ second <:+: restoreCalls {} css) ∧
      backward css {} other = backward css {} compiled := by
  intro css compiled other
  have restorable : Restorable compiled := {
    names := by decide +kernel
    literals := by decide +kernel
    distinct := by decide +kernel }
  have same : other.entries.Perm compiled.entries := List.Perm.swap _ _ []
  have apart : ∀ first ∈ compiled.entries.map Prod.snd, ∀ second ∈ compiled.entries.map Prod.snd,
      first ≠ second → ¬ first ++ second <:+: restoreCalls {} css := by decide +kernel
  exact ⟨restorable, same, apart, backward_perm css {} compiled other restorable same apart⟩

end Substitution
end ColorTheme
