import ColorTheme.Css.Token
import ColorTheme.Proofs.Text.Run
import ColorTheme.Proofs.Text.Search

/-!
The tokens of a scan are the source text cut into pieces. Each span function splits its text in
two, so each token covers a beginning of the text, which is not empty. -/
namespace ColorTheme.Css

def Span.Covers (text : Text) (span : Span) : Prop := span.1 ++ span.2 = text

namespace Span

theorem covers_cons {text : Text} {span : Span} (c : Char) (covers : Covers text span) :
    Covers (c :: text) (Span.cons c span) := congrArg (c :: ·) covers

theorem Covers.append {text : Text} {span next : Span} (covers : Covers text span)
    (more : Covers span.2 next) : Covers text (span.1 ++ next.1, next.2) := by
  unfold Covers at covers more ⊢
  rw [List.append_assoc, more, covers]

end Span

open ColorTheme.Css.Span

theorem nameSpan_covers (state : Escape) (text : Text) : Covers text (nameSpan state text) := by
  induction text generalizing state with
  | nil => cases state <;> rfl
  | cons c rest ih =>
    unfold nameSpan
    split
    · exact covers_cons c (ih _)
    · split
      · exact covers_cons c (ih _)
      · split
        · exact covers_cons c (ih _)
        · rfl

theorem commentSpan_covers (text : Text) : Covers text (commentSpan text) := by
  fun_induction commentSpan text with
  | case1 => rfl
  | case2 => rfl
  | case3 c rest _ ih => exact covers_cons c ih

theorem stringSpan_covers (quote : Char) (state : Escape) (text : Text) :
    Covers text (stringSpan quote state text).2 := by
  induction text generalizing state with
  | nil => rfl
  | cons c rest ih =>
    unfold stringSpan
    dsimp only
    split
    · exact covers_cons c (ih _)
    · split
      · rfl
      · split
        · rfl
        · exact covers_cons c (ih _)

theorem badUrlSpan_covers (text : Text) : Covers text (badUrlSpan text) := by
  fun_induction badUrlSpan text with
  | case1 => rfl
  | case2 rest ih => exact covers_cons _ (covers_cons _ ih)
  | case3 rest ih => exact covers_cons _ (covers_cons _ ih)
  | case4 => rfl
  | case5 c rest _ _ _ ih => exact covers_cons c ih

theorem urlEndSpan_covers (text : Text) : Covers text (urlEndSpan text).2 := by
  induction text with
  | nil => rfl
  | cons c rest ih =>
    unfold urlEndSpan
    split
    · rfl
    · split
      · exact covers_cons c ih
      · exact covers_cons c (badUrlSpan_covers rest)

theorem urlBodySpan_covers (state : Escape) (text : Text) :
    Covers text (urlBodySpan state text).2 := by
  induction text generalizing state with
  | nil => rfl
  | cons c rest ih =>
    unfold urlBodySpan
    dsimp only
    split
    · exact covers_cons c (ih _)
    · split
      · exact urlEndSpan_covers (c :: rest)
      · split
        · rfl
        · split
          · exact covers_cons c (badUrlSpan_covers rest)
          · exact covers_cons c (ih _)

theorem urlSpan?_covers {text : Text} {kind : Kind} {span : Span}
    (found : urlSpan? text = some (kind, span)) : Covers text span := by
  have whole : text.takeWhile isSpace ++ text.dropWhile isSpace = text :=
    List.takeWhile_append_dropWhile
  unfold urlSpan? at found
  dsimp only at found
  split at found
  · cases found
    exact List.append_nil text
  · rename_i c rest known
    rw [known] at whole
    split at found
    · contradiction
    · split at found
      · cases found
        simpa [Covers] using whole
      · cases found
        have body := urlBodySpan_covers .outside (c :: rest)
        unfold Covers at body ⊢
        rw [List.append_assoc, body, whole]

theorem digitSpan_covers (text : Text) : Covers text (digitSpan text) :=
  List.takeWhile_append_dropWhile

theorem signSpan_covers (text : Text) : Covers text (signSpan text) := by
  unfold signSpan
  split <;> rfl

theorem fractionSpan_covers (text : Text) : Covers text (fractionSpan text) := by
  unfold fractionSpan
  split
  · split
    · exact covers_cons _ (digitSpan_covers _)
    · rfl
  · rfl

theorem exponentSpan_covers (text : Text) : Covers text (exponentSpan text) := by
  cases text with
  | nil => rfl
  | cons c rest =>
    unfold exponentSpan
    dsimp only
    split
    · exact covers_cons c ((signSpan_covers rest).append (digitSpan_covers _))
    · rfl

theorem unitSpan_covers (text : Text) : Covers text (unitSpan text) := by
  unfold unitSpan
  split
  · rfl
  · split
    · exact nameSpan_covers .outside _
    · rfl

theorem numberSpan_covers (text : Text) : Covers text (numberSpan text) := by
  have sign := signSpan_covers text
  have whole := sign.append (digitSpan_covers _)
  have fraction := whole.append (fractionSpan_covers _)
  have exponent := fraction.append (exponentSpan_covers _)
  exact exponent.append (unitSpan_covers _)

/-- A number has a digit, or a point before one. -/
theorem numberSpan_ne_nil {text : Text} (starts : startsNumber text = true) :
    (numberSpan text).1 ≠ [] := by
  intro empty
  simp only [numberSpan, List.append_eq_nil_iff] at empty
  obtain ⟨⟨⟨⟨_, whole⟩, fraction⟩, _⟩, _⟩ := empty
  simp only [startsNumber, Bool.or_eq_true, Bool.and_eq_true, decide_eq_true_eq] at starts
  cases rest : (signSpan text).2 with
  | nil => simp [rest, startsDigit] at starts
  | cons c left =>
    rw [rest] at whole fraction starts
    rcases starts with digit | ⟨point, digit⟩
    · simp only [startsDigit, List.head?_cons, Option.any_some] at digit
      simp [digitSpan, digit] at whole
    · obtain rfl : c = '.' := by simpa using point
      have kept : (digitSpan ('.' :: left)).2 = '.' :: left := by
        simp [digitSpan, show Text.isDigit '.' = false by decide]
      rw [List.tail_cons] at digit
      simp [kept, fractionSpan, digit, Span.cons] at fraction

theorem nameSpan_ne_nil {text : Text} (starts : startsName text = true) :
    (nameSpan .outside text).1 ≠ [] := by
  cases text with
  | nil => contradiction
  | cons c rest =>
    have first : isNamePart c = true ∨ (c = '\\' && !startsNewline rest) = true := by
      unfold startsName at starts
      split at starts
      · contradiction
      · contradiction
      · rename_i same
        cases same
        exact .inl (by decide)
      · rename_i same
        cases same
        exact .inr (by simpa using starts)
      · rename_i same
        cases same
        exact .inl (by simp [isNamePart, starts])
    unfold nameSpan
    rcases first with part | escape
    · simp [Escape.step?, part, Span.cons]
    · simp only [Escape.step?, escape]
      split <;> simp [Span.cons]

namespace Token

theorem named_covers (text : Text) : (named text).1.text ++ (named text).2 = text := by
  have name : (nameSpan .outside text).1 ++ (nameSpan .outside text).2 = text :=
    nameSpan_covers .outside text
  unfold named
  dsimp only
  split
  · rename_i inner rest
    rw [rest] at name
    split
    · rename_i kind span found
      obtain ⟨_, address⟩ := Option.ite_none_right_eq_some.mp found
      have inside : span.1 ++ span.2 = inner := urlSpan?_covers address
      simpa [inside] using name
    · simpa using name
  · exact name

theorem named_ne_nil {text : Text} (starts : startsName text = true) :
    (named text).1.text ≠ [] := by
  have name := nameSpan_ne_nil starts
  unfold named
  dsimp only
  split
  · split
    · simp
    · simp
  · exact name

/-- A token covers a beginning of the text, which is not empty. -/
theorem next?_covers {text rest : Text} {t : Token} (found : next? text = some (t, rest)) :
    t.text ≠ [] ∧ t.text ++ rest = text := by
  -- All but names and numbers begin with the character they are told by.
  have begins : ∀ {kind : Kind} {c : Char} {left : Text} {span : Span},
      ofSpan kind (Span.cons c span) = (t, rest) → Covers left span →
        t.text ≠ [] ∧ t.text ++ rest = c :: left := by
    intro kind c left span same covers
    cases same
    exact ⟨List.cons_ne_nil c _, covers_cons c covers⟩
  cases text with
  | nil => contradiction
  | cons c left =>
    replace found := Option.some.inj found
    split at found
    · rename_i space
      rw [List.takeWhile_cons_of_pos space] at found
      have run : Covers left (left.takeWhile isSpace, left.dropWhile isSpace) :=
        List.takeWhile_append_dropWhile
      exact begins found run
    · split at found
      · exact begins found (stringSpan_covers c .outside left)
      · split at found
        · exact begins found (nameSpan_covers .outside left)
        · split at found
          · exact begins found (nameSpan_covers .outside left)
          · split at found
            · rename_i starts
              cases found
              exact ⟨numberSpan_ne_nil starts, numberSpan_covers (c :: left)⟩
            · split at found
              · rename_i starts
                have filled := named_ne_nil (Bool.and_eq_true_iff.mp starts).1
                have whole := named_covers (c :: left)
                rw [found] at filled whole
                exact ⟨filled, whole⟩
              · split at found
                · cases found
                  exact ⟨List.cons_ne_nil c [], rfl⟩
                · split at found
                  · rename_i inner opened
                    cases found
                    have start := Text.after?_eq_some.mp opened
                    have body : (commentSpan inner).1 ++ (commentSpan inner).2 = inner :=
                      commentSpan_covers inner
                    exact ⟨List.cons_ne_nil _ _, by simp [start, body]⟩
                  · rename_i opened _
                    cases found
                    exact ⟨by simp, (Text.after?_eq_some.mp opened).symm⟩
                  · rename_i closed _ _
                    cases found
                    exact ⟨by simp, (Text.after?_eq_some.mp closed).symm⟩
                  · cases found
                    exact ⟨List.cons_ne_nil c [], rfl⟩

theorem next?_local : Text.Matcher.Local fun _ here => next? here where
  blind _ _ _ := rfl
  covers := by
    intro _ here t rest found
    obtain ⟨filled, whole⟩ := next?_covers found
    obtain ⟨c, used, spelled⟩ := List.exists_cons_of_ne_nil filled
    exact ⟨c, used, by rw [← whole, spelled]⟩

theorem scan_nil : scan [] = [] := rfl

theorem scan_cons {text rest : Text} {t : Token} (found : next? text = some (t, rest)) :
    scan text = t :: scan rest := Text.findAll_match next?_local found

theorem source_scan (text : Text) : source (scan text) = text := by
  induction text using Text.search_induction next?_local with
  | nil => rfl
  | char c rest missed => simp [next?] at missed
  | found here t rest found ih =>
    rw [scan_cons found]
    simp only [source, List.flatMap_cons] at ih ⊢
    rw [ih, (next?_covers found).2]

end Token
end ColorTheme.Css
