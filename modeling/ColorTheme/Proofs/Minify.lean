import ColorTheme.Proofs.Text.Gap
import ColorTheme.Proofs.Uncommented

/-!
What compaction does to a sheet. Every pass behind the comments rewrites the gaps between characters
and nothing else, so that all of them together are one rule for gaps. A gap that the rule made is not
changed by it again, and none that it closes brings a comment about. -/
namespace ColorTheme.Minify

open Text

/-- What stands behind the last line feed of a gap. -/
def lastLine (gap : Text) : Text := ((cutLast? '\n' gap).map Prod.snd).getD gap

/-- Lines of white space go: behind a character all but the first line end, and in front of the text
that one too. -/
def dropLines : GapRule
  | none, gap, _ => lastLine gap
  | some _, gap, _ =>
    match cut? ['\n'] gap with
    | some (front, more) => front ++ '\n' :: lastLine more
    | none => gap

/-- A line end and at least one more character. -/
def isIndented : Text → Bool
  | first :: _ :: _ => first = '\n' || first = '\r'
  | _ => false

def isLineEnd (gap : Text) : Bool := lineEnd? gap = some []

/-- A gap behind the mark becomes the joint if it fits. -/
def joined (mark : Char) (fits : Text → Option Char → Bool) (joint : Text) : GapRule :=
  fun before gap after => if before = some mark && fits gap after then joint else gap

/-- A gap is closed behind an opening brace and behind a semicolon; between the selectors of a list
a line end becomes a space. -/
def closeGap : GapRule := fun before gap after =>
  if before = some '{' && isIndented gap then []
  else if before = some ';' && (isIndented gap || (after = some '}' && isLineEnd gap)) then []
  else if before = some ',' && after = some '.' && isLineEnd gap then [' ']
  else gap

/-- What compaction makes of a gap. -/
def compact : GapRule := dropLines.andThen closeGap

theorem lastLine_single {gap : Text} (single : '\n' ∉ gap) : lastLine gap = gap := by
  simp [lastLine, cutLast?_eq_none.mpr single]

theorem notMem_lastLine (gap : Text) : '\n' ∉ lastLine gap := by
  unfold lastLine
  cases cut : cutLast? '\n' gap with
  | none => exact cutLast?_eq_none.mp cut
  | some parts => exact cutLast?_clean cut

theorem lastLine_suffix (gap : Text) : lastLine gap <:+ gap := by
  unfold lastLine
  cases cut : cutLast? '\n' gap with
  | none => exact List.suffix_rfl
  | some parts => exact ⟨parts.1 ++ ['\n'], by simp [cutLast?_eq_append cut]⟩

theorem dropLines_behind {front : Text} (single : '\n' ∉ front) (c : Char) (more : Text)
    (after : Option Char) : dropLines (some c) (front ++ '\n' :: more) after =
      front ++ '\n' :: lastLine more := by
  rw [dropLines, cut?_char.mpr ⟨single, rfl⟩]

theorem dropLines_single {gap : Text} (single : '\n' ∉ gap) (before after : Option Char) :
    dropLines before gap after = gap := by
  cases before with
  | none => exact lastLine_single single
  | some c =>
    have uncut : cut? ['\n'] gap = none :=
      (cut?_eq_none (by decide)).mpr (mt (List.singleton_infix_iff _ _).mp single)
    rw [dropLines, uncut]

theorem single_or_feed (gap : Text) :
    '\n' ∉ gap ∨ ∃ front more, gap = front ++ '\n' :: more ∧ '\n' ∉ front := by
  by_cases feed : '\n' ∈ gap
  · obtain ⟨front, more, whole, single⟩ := List.eq_append_cons_of_mem feed
    exact .inr ⟨front, more, whole, single⟩
  · exact .inl feed

theorem joinBlanks_eq_some {mark : Char} {before : Option Char} {here value left : Text} :
    joinBlanks mark before here = some (value, left) ↔ ∃ first second more,
      here = mark :: first :: second :: more ∧ (first = '\n' ∨ first = '\r') ∧
        isBlank second = true ∧ value = [mark] ∧ left = more.dropWhile isBlank := by
  constructor
  · intro found
    unfold joinBlanks at found
    split at found
    · split at found
      · rename_i fits
        simp only [Bool.and_eq_true, Bool.or_eq_true, decide_eq_true_eq] at fits
        obtain ⟨⟨rfl, feed⟩, blank⟩ := fits
        cases found
        exact ⟨_, _, _, rfl, feed, blank, rfl, rfl⟩
      · contradiction
    · contradiction
  · rintro ⟨first, second, more, rfl, feed, blank, rfl, rfl⟩
    simp [joinBlanks, feed, blank]

theorem joinBlanks_local (mark : Char) : (joinBlanks mark).Local where
  blind _ _ _ := rfl
  covers found := by
    obtain ⟨first, second, more, rfl, _, _, _, rfl⟩ := joinBlanks_eq_some.mp found
    exact ⟨mark, first :: second :: more.takeWhile isBlank, by simp⟩

theorem ne_lineEnd {c : Char} (solid : isBlank c = false) : c ≠ '\r' ∧ c ≠ '\n' := by
  constructor <;> rintro rfl <;> contradiction

theorem lineEnd?_append {rest : Text} (solid : rest.head?.any isBlank = false) (gap : Text) :
    lineEnd? (gap ++ rest) = (lineEnd? gap).map (· ++ rest) := by
  cases gap with
  | nil =>
    cases rest with
    | nil => rfl
    | cons d rest => simp [lineEnd?, ne_lineEnd (c := d) solid]
  | cons c gap =>
    by_cases ret : c = '\r'
    · cases gap with
      | nil =>
        cases rest with
        | nil => simp [lineEnd?, ret]
        | cons d rest => simp [lineEnd?, ret, ne_lineEnd (c := d) solid]
      | cons d gap => by_cases feed : d = '\n' <;> simp [lineEnd?, ret, feed]
    · by_cases feed : c = '\n' <;> simp [lineEnd?, ret, feed]

theorem lineEnd?_suffix {gap left : Text} (ends : lineEnd? gap = some left) : left <:+ gap := by
  unfold lineEnd? at ends
  split at ends <;> cases ends
  · exact (List.suffix_cons _ _).trans (List.suffix_cons _ _)
  · exact List.suffix_cons _ _
  · exact List.suffix_cons _ _

/-- A line end in front of a character that is no white space is the whole gap. -/
theorem lineEnd?_gap {gap rest left : Text} {other : Char} (blank : Blank gap)
    (solid : rest.head?.any isBlank = false) (black : isBlank other = false) :
    lineEnd? (gap ++ rest) = some (other :: left) ↔
      isLineEnd gap = true ∧ rest = other :: left := by
  rw [lineEnd?_append solid, Option.map_eq_some_iff, isLineEnd, decide_eq_true_eq]
  constructor
  · rintro ⟨more, ends, whole⟩
    cases more with
    | nil => exact ⟨ends, whole⟩
    | cons c more =>
      have white := blank c ((lineEnd?_suffix ends).subset List.mem_cons_self)
      rw [(List.cons.inj whole).1, black] at white
      contradiction
  · rintro ⟨ends, rfl⟩
    exact ⟨[], ends, rfl⟩

theorem joinMarks_eq_some {mark other : Char} {joint : Text} {before : Option Char}
    {here value left : Text} : joinMarks mark other joint before here = some (value, left) ↔
      ∃ rest, here = mark :: rest ∧ lineEnd? rest = some (other :: left) ∧
        value = mark :: joint ++ [other] := by
  unfold joinMarks
  constructor
  · intro found
    split at found
    · contradiction
    · split at found
      · rename_i same
        split at found
        · rename_i ends
          split at found
          · rename_i next
            cases found
            exact ⟨_, by rw [same], by rw [ends, next], rfl⟩
          · contradiction
        · contradiction
      · contradiction
  · rintro ⟨rest, rfl, ends, rfl⟩
    simp [ends]

theorem joinMarks_local (mark other : Char) (joint : Text) :
    (joinMarks mark other joint).Local where
  blind _ _ _ := rfl
  covers found := by
    obtain ⟨rest, rfl, ends, _⟩ := joinMarks_eq_some.mp found
    obtain ⟨used, whole⟩ := lineEnd?_suffix ends
    exact ⟨mark, used ++ [other], by simp [← whole]⟩

section Marks

variable {mark other : Char} {before : Option Char} {gap rest : Text}

/-- A pass that joins behind a mark, on one gap: the mark is all that it looks for in front. -/
theorem replaceBy_gap {m : Matcher Text} {fits : Text → Option Char → Bool} {joint : Text}
    (is : m.Local) (black : isBlank mark = false)
    (marked : ∀ c text, c ≠ mark → m none (c :: text) = none)
    (fit : fits gap rest.head? = true →
      replaceBy m (mark :: (gap ++ rest)) = mark :: joint ++ replaceBy m rest)
    (unfit : fits gap rest.head? = false → m none (mark :: (gap ++ rest)) = none)
    (blank : Blank gap) :
    replaceBy m (before.toList ++ gap ++ rest) =
      before.toList ++ joined mark fits joint before gap rest.head? ++ replaceBy m rest := by
  have pass : replaceBy m (gap ++ rest) = gap ++ replaceBy m rest :=
    replaceBy_append is fun c member text => marked c text fun same =>
      Bool.false_ne_true (black.symm.trans (same ▸ blank c member))
  cases before with
  | none => simpa [joined] using pass
  | some c =>
    by_cases same : c = mark
    · subst same
      cases known : fits gap rest.head? with
      | true => simpa [joined, known] using fit known
      | false => simpa [joined, known, pass] using replaceBy_char is (unfit known)
    · simpa [joined, same, pass] using replaceBy_char is (marked c (gap ++ rest) same)

theorem replaceBy_joinBlanks (black : isBlank mark = false) (text : Text) :
    replaceBy (joinBlanks mark) text =
      regap (joined mark (fun gap _ => isIndented gap) []) text := by
  refine replaceBy_eq_regap (fun before gap rest _ blank solid => ?_) text
  refine replaceBy_gap (joinBlanks_local mark) black ?_ ?_ ?_ blank
  · intro c text other
    rw [Option.eq_none_iff_forall_ne_some]
    rintro ⟨value, left⟩ found
    obtain ⟨_, _, _, whole, _⟩ := joinBlanks_eq_some.mp found
    exact other (List.cons.inj whole).1
  · intro fits
    match gap, fits with
    | first :: second :: more, fits =>
      obtain ⟨white, later⟩ := List.forall_mem_cons.mp (List.forall_mem_cons.mp blank).2
      have found : joinBlanks mark none (mark :: (first :: second :: more ++ rest)) =
          some ([mark], rest) :=
        joinBlanks_eq_some.mpr ⟨first, second, more ++ rest, rfl, by simpa [isIndented] using fits,
          white, rfl, (run_append later solid).2.symm⟩
      exact replaceBy_match (joinBlanks_local mark) found
  · intro unfit
    rw [Option.eq_none_iff_forall_ne_some]
    rintro ⟨value, left⟩ found
    obtain ⟨first, second, more, whole, feed, white, _, _⟩ := joinBlanks_eq_some.mp found
    have inner := (List.cons.inj whole).2
    match gap, unfit with
    | [], _ =>
      rw [List.nil_append] at inner
      rw [inner] at solid
      rcases feed with rfl | rfl <;> contradiction
    | [c], _ =>
      obtain ⟨_, rfl⟩ := List.cons.inj inner
      exact Bool.false_ne_true (solid.symm.trans white)
    | c :: d :: gap, unfit =>
      obtain ⟨rfl, _⟩ := List.cons.inj inner
      simp only [isIndented, Bool.or_eq_false_iff, decide_eq_false_iff_not] at unfit
      exact feed.elim unfit.1 unfit.2

theorem replaceBy_joinMarks (black : isBlank mark = false) (white : isBlank other = false)
    (apart : other ≠ mark) (joint text : Text) : replaceBy (joinMarks mark other joint) text =
      regap (joined mark (fun gap after => after = some other && isLineEnd gap) joint) text := by
  have marked : ∀ c text, c ≠ mark → joinMarks mark other joint none (c :: text) = none := by
    intro c text other
    rw [Option.eq_none_iff_forall_ne_some]
    rintro ⟨value, left⟩ found
    obtain ⟨_, whole, _⟩ := joinMarks_eq_some.mp found
    exact other (List.cons.inj whole).1
  have is := joinMarks_local mark other joint
  refine replaceBy_eq_regap (fun before gap rest _ blank solid => ?_) text
  refine replaceBy_gap is black marked ?_ ?_ blank
  · intro fits
    simp only [Bool.and_eq_true, decide_eq_true_eq] at fits
    cases rest with
    | nil => cases fits.1
    | cons d rest =>
      obtain rfl := Option.some.inj fits.1
      have ends : lineEnd? (gap ++ d :: rest) = some (d :: rest) :=
        (lineEnd?_gap blank solid white).mpr ⟨fits.2, rfl⟩
      rw [replaceBy_match is (joinMarks_eq_some.mpr ⟨_, rfl, ends, rfl⟩),
        replaceBy_char is (marked d rest apart)]
      simp
  · intro unfit
    rw [Option.eq_none_iff_forall_ne_some]
    rintro ⟨value, left⟩ found
    obtain ⟨inner, whole, ends, _⟩ := joinMarks_eq_some.mp found
    rw [← (List.cons.inj whole).2, lineEnd?_gap blank solid white] at ends
    simp [ends] at unfit

end Marks

section BlankLines

variable {before : Option Char} {gap rest : Text}

theorem blankLines_single (single : '\n' ∉ gap) (blank : Blank gap)
    (solid : rest.head?.any isBlank = false) : blankLines before (gap ++ rest) = none := by
  simp only [blankLines, (run_append blank solid).1, cutLast?_eq_none.mpr single]
  split <;> rfl

theorem blankLines_inside {c : Char} (inside : c ≠ '\n') (here : Text) :
    blankLines (some c) here = none := by simp [blankLines, atLineStart, inside]

theorem eraseFrom_single (single : '\n' ∉ gap) (blank : Blank gap)
    (solid : rest.head?.any isBlank = false) :
    eraseFrom blankLines before (gap ++ rest) = gap ++ erase blankLines rest := by
  induction gap generalizing before with
  | nil =>
    cases rest with
    | nil => rfl
    | cons d rest =>
      have missed : ∀ before, blankLines before ([] ++ d :: rest) = none := fun _ =>
        blankLines_single List.not_mem_nil blank_nil solid
      rw [List.nil_append, List.nil_append, erase_eq, eraseFrom_passed (missed _),
        eraseFrom_passed (missed _)]
  | cons c gap ih =>
    have missed : blankLines before (c :: gap ++ rest) = none :=
      blankLines_single single blank solid
    rw [List.cons_append] at missed ⊢
    rw [eraseFrom_passed missed, ih (List.not_mem_of_not_mem_cons single)
      (List.forall_mem_cons.mp blank).2, List.cons_append]

theorem eraseFrom_start (start : atLineStart before = true) (blank : Blank gap)
    (solid : rest.head?.any isBlank = false) :
    eraseFrom blankLines before (gap ++ rest) = lastLine gap ++ erase blankLines rest := by
  have last : ∀ before, eraseFrom blankLines before (lastLine gap ++ rest) =
      lastLine gap ++ erase blankLines rest := fun _ =>
    eraseFrom_single (notMem_lastLine gap)
      (fun c member => blank c ((lastLine_suffix gap).subset member)) solid
  cases cut : cutLast? '\n' gap with
  | none => simpa [lastLine, cut] using last before
  | some parts =>
    obtain ⟨front, tail⟩ := parts
    have behind : lastLine gap = tail := by simp [lastLine, cut]
    have split : gap ++ rest = (front ++ ['\n']) ++ (tail ++ rest) := by
      simp [cutLast?_eq_append cut]
    have found : blankLines before (gap ++ rest) = some ((), tail ++ rest) := by
      simp only [blankLines, start, if_true, run_append blank solid, cut]
      rfl
    rw [split] at found ⊢
    rw [eraseFrom_found (by simp) found, ← behind, last]

theorem eraseFrom_behind {c : Char} (inside : c ≠ '\n') (blank : Blank gap)
    (solid : rest.head?.any isBlank = false) : eraseFrom blankLines (some c) (gap ++ rest) =
      dropLines (some c) gap rest.head? ++ erase blankLines rest := by
  rcases single_or_feed gap with single | ⟨front, more, rfl, single⟩
  · rw [dropLines_single single, eraseFrom_single single blank solid]
  · rw [dropLines_behind single]
    induction front generalizing c with
    | nil =>
      have opened : atLineStart (some '\n') = true := by decide
      have start := eraseFrom_start opened (List.forall_mem_cons.mp blank).2 solid
      rw [List.nil_append, List.cons_append, eraseFrom_passed (blankLines_inside inside _), start]
      rfl
    | cons d front ih =>
      obtain ⟨other, later⟩ := List.ne_and_not_mem_of_not_mem_cons single
      have next := ih (Ne.symm other) later (List.forall_mem_cons.mp blank).2
      rw [List.cons_append, List.cons_append, eraseFrom_passed (blankLines_inside inside _), next]
      rfl

theorem erase_blankLines (text : Text) : erase blankLines text = regap dropLines text := by
  refine replaceBy_eq_regap (fun before gap rest solid blank closed => ?_) text
  change erase blankLines _ = _ ++ erase blankLines rest
  cases before with
  | none => exact eraseFrom_start rfl blank closed
  | some c =>
    have black : isBlank c = false := by simpa using solid
    have missed : blankLines none ([] ++ c :: (gap ++ rest)) = none :=
      blankLines_single List.not_mem_nil blank_nil black
    have behind := eraseFrom_behind (ne_lineEnd black).2 blank closed
    have first := eraseFrom_passed missed
    rw [behind] at first
    simpa [erase_eq] using first

end BlankLines

theorem dropLines_blank : dropLines.Blank := by
  intro before gap after blank
  have last : ∀ {gap : Text}, Blank gap → Blank (lastLine gap) := fun blank c member =>
    blank c ((lastLine_suffix _).subset member)
  cases before with
  | none => exact last blank
  | some c =>
    rcases single_or_feed gap with single | ⟨front, more, rfl, single⟩
    · rwa [dropLines_single single]
    · obtain ⟨first, second⟩ := List.forall_mem_append.mp blank
      obtain ⟨feed, later⟩ := List.forall_mem_cons.mp second
      rw [dropLines_behind single]
      exact List.forall_mem_append.mpr ⟨first, List.forall_mem_cons.mpr ⟨feed, last later⟩⟩

theorem dropLines_dropLines (before : Option Char) (gap : Text) (after : Option Char) :
    dropLines before (dropLines before gap after) after = dropLines before gap after := by
  cases before with
  | none => exact lastLine_single (notMem_lastLine gap)
  | some c =>
    rcases single_or_feed gap with single | ⟨front, more, rfl, single⟩
    · rw [dropLines_single single, dropLines_single single]
    · rw [dropLines_behind single, dropLines_behind single, lastLine_single (notMem_lastLine more)]

theorem joined_blank {mark : Char} {fits : Text → Option Char → Bool} {joint : Text}
    (blank : Blank joint) : (joined mark fits joint).Blank := by
  intro before gap after known
  unfold joined
  split
  · exact blank
  · exact known

/-- The passes behind the blank lines are one rule: a character is at most one of the marks, and
only the semicolon is the mark of two passes. -/
theorem closeGap_eq : ((joined '{' fun gap _ => isIndented gap) []).andThen
    (((joined ';' fun gap after => after = some '}' && isLineEnd gap) []).andThen
    (((joined ';' fun gap _ => isIndented gap) []).andThen
    ((joined ',' fun gap after => after = some '.' && isLineEnd gap) [' ']))) = closeGap := by
  funext before gap after
  have empty : isIndented [] = false := rfl
  simp only [GapRule.andThen, joined, closeGap]
  by_cases semicolon : before = some ';'
  · by_cases ends : (after = some '}' && isLineEnd gap) = true
    · simp [semicolon, ends, empty]
    · by_cases indented : isIndented gap = true <;> simp [semicolon, ends, indented]
  · by_cases opening : before = some '{' <;> simp [semicolon, opening, and_assoc]

/-- Compaction takes the comments out and rewrites the gaps. -/
theorem minify_eq (css : Text) : minify css = regap compact (erase comment css) := by
  have blank : ∀ {mark : Char} {fits : Text → Option Char → Bool}, (joined mark fits []).Blank :=
    joined_blank blank_nil
  simp (disch := decide) only [minify, erase_blankLines, replaceBy_joinBlanks, replaceBy_joinMarks]
  rw [regap_andThen blank, regap_andThen blank, regap_andThen blank, closeGap_eq,
    regap_andThen dropLines_blank, compact]

theorem closeGap_cases (before : Option Char) (gap : Text) (after : Option Char) :
    closeGap before gap after = gap ∨
      (closeGap before gap after = [] ∧ (before = some '{' ∨ before = some ';')) ∨
      (closeGap before gap after = [' '] ∧ before = some ',') := by
  unfold closeGap
  split
  · rename_i opening
    simp only [Bool.and_eq_true, decide_eq_true_eq] at opening
    exact .inr (.inl ⟨rfl, .inl opening.1⟩)
  · split
    · rename_i semicolon
      simp only [Bool.and_eq_true, decide_eq_true_eq] at semicolon
      exact .inr (.inl ⟨rfl, .inr semicolon.1⟩)
    · split
      · rename_i comma
        simp only [Bool.and_eq_true, decide_eq_true_eq] at comma
        exact .inr (.inr ⟨rfl, comma.1.1⟩)
      · exact .inl rfl

theorem closeGap_nil (before after : Option Char) : closeGap before [] after = [] := by
  simp [closeGap, isIndented, isLineEnd, lineEnd?]

theorem compact_compact (before : Option Char) (gap : Text) (after : Option Char) :
    compact before (compact before gap after) after = compact before gap after := by
  have same : compact before gap after = closeGap before (dropLines before gap after) after := rfl
  rw [same]
  rcases closeGap_cases before (dropLines before gap after) after with
    kept | ⟨closed, _⟩ | ⟨spaced, comma⟩
  · rw [kept, compact, GapRule.andThen, dropLines_dropLines, kept]
  · rw [closed, compact, GapRule.andThen, dropLines_single List.not_mem_nil]
    exact closeGap_nil before after
  · rw [spaced, compact, GapRule.andThen, dropLines_single (by decide), comma]
    simp [closeGap, isLineEnd, lineEnd?]

/-- The characters behind which a gap may be lost. -/
def closesGap (c : Char) : Bool := c = '{' || c = ';'

theorem dropLines_spares : dropLines.Spares closesGap where
  blank := dropLines_blank
  opens before after := dropLines_single List.not_mem_nil before after
  stays c gap after _ filled _ := by
    rcases single_or_feed gap with single | ⟨front, more, rfl, single⟩
    · rwa [dropLines_single single]
    · rw [dropLines_behind single]
      exact List.append_ne_nil_of_right_ne_nil front (List.cons_ne_nil _ _)

theorem closeGap_spares : closeGap.Spares closesGap where
  blank before gap after blank := by
    rcases closeGap_cases before gap after with kept | ⟨closed, _⟩ | ⟨spaced, _⟩
    · rwa [kept]
    · rw [closed]
      exact blank_nil
    · rw [spaced]
      exact blank_nil.concat (by decide)
  opens := closeGap_nil
  stays c gap after _ filled open' := by
    rcases closeGap_cases (some c) gap after with kept | ⟨_, mark⟩ | ⟨spaced, _⟩
    · rwa [kept]
    · have marked : closesGap c = true := by simpa [closesGap] using mark
      exact absurd marked (by simp [open'])
    · rw [spaced]
      exact List.cons_ne_nil _ _

theorem compact_spares : compact.Spares closesGap := dropLines_spares.andThen closeGap_spares

theorem commentless_regap {text : Text} (commentless : Commentless text) :
    Commentless (regap compact text) := by
  have pair : ∀ {c d : Char} {before : Option Char} {text more : Text}, isBlank c = false →
      closesGap c = false → isBlank d = false →
      c :: d :: more <:+ regapFrom compact before [] text →
      ∃ rest, c :: d :: rest <:+ text ∧ more = regapFrom compact (some d) [] rest :=
    fun first open' second => suffix_regapFrom_pair compact_spares blank_nil first open' second
  rintro here suffix (⟨more, rfl⟩ | ⟨more, rfl, front, behind, closed⟩)
  · obtain ⟨rest, start, _⟩ := pair (by decide) (by decide) (by decide) suffix
    exact commentless _ start (.inl ⟨rest, rfl⟩)
  · obtain ⟨rest, start, rfl⟩ := pair (by decide) (by decide) (by decide) suffix
    have inner : '*' :: '/' :: behind <:+ regapFrom compact (some '*') [] rest :=
      ⟨front, by rw [← closed]; simp⟩
    obtain ⟨last, ends, _⟩ := pair (by decide) (by decide) (by decide) inner
    have stop : ("*/" : Text) <:+: '*' :: '/' :: last := ⟨[], last, rfl⟩
    exact commentless _ start (.inr ⟨rest, rfl, stop.trans ends.isInfix⟩)

/-- Compaction leaves a compact sheet as it is. -/
theorem minify_minify (css : Text) : minify (minify css) = minify css := by
  have clean := commentless_regap (commentless_erase css)
  calc minify (minify css)
    _ = regap compact (erase comment (regap compact (erase comment css))) := by
      rw [minify_eq css, minify_eq]
    _ = regap compact (regap compact (erase comment css)) := by rw [erase_commentless clean]
    _ = regap (compact.andThen compact) (erase comment css) :=
      regap_andThen compact_spares.blank _
    _ = regap compact (erase comment css) :=
      regapFrom_congr (fun before gap after _ => compact_compact before gap after) blank_nil
    _ = minify css := (minify_eq css).symm

/-- Compaction removes comments and white space and nothing else. The other characters stay in
order; white space between two of them stays unless the first is an opening brace or a semicolon, and
none comes between two that stood together. -/
theorem minify_spacing (css : Text) : ∃ left, (∀ text, Uncommented css text ↔ text = left) ∧
    ((minify css).filter fun c => !isBlank c) = (left.filter fun c => !isBlank c) ∧
    List.Forall₂ (Spared closesGap) (spacing left) (spacing (minify css)) := by
  have spared :
      List.Forall₂ (Spared closesGap) (spacing (erase comment css)) (spacing (minify css)) := by
    rw [minify_eq]
    exact spacing_regapFrom compact_spares blank_nil
  refine ⟨erase comment css, fun text => uncommented_iff, ?_, spared⟩
  rw [← spacing_chars, ← spacing_chars, Spared.chars spared]

end ColorTheme.Minify
