import ColorTheme.Proofs.Css.Token
import ColorTheme.Proofs.Text.Letter
import Mathlib.Data.List.TakeWhile

/-!
Plain text in a style sheet: letters, digits and signs that neither quote nor escape nor open a
block. Its tokens end where it ends, and the round brackets in it are the only ones they open and
close. -/
namespace ColorTheme.Css

def isSelectorChar (c : Char) : Bool :=
  Text.isAsciiAlphanumeric c || " .-_:>+~,".toList.contains c

def isValueChar (c : Char) : Bool :=
  Text.isAsciiAlphanumeric c || " #.,%-+!()".toList.contains c

def isPlainChar (c : Char) : Bool := isSelectorChar c || isValueChar c

theorem ne_of_isPlainChar {c d : Char} (plain : isPlainChar c = true)
    (other : isPlainChar d = false) : c ≠ d := by
  rintro rfl
  exact Bool.false_ne_true (other.symm.trans plain)

/-- What ends a plain text: the end of a declaration or the start of a block. -/
def Ends (tail : Text) : Prop := ∃ stop rest, tail = stop :: rest ∧ (stop = ';' ∨ stop = '{')

theorem Ends.head? {tail : Text} (ends : Ends tail) {p : Char → Bool} (semicolon : p ';' = false)
    (brace : p '{' = false) : tail.head?.any p = false := by
  obtain ⟨stop, rest, rfl, rfl | rfl⟩ := ends
  · exact semicolon
  · exact brace

/-- Text without round brackets. -/
def Bare (text : Text) : Prop := ∀ c ∈ text, c ≠ '(' ∧ c ≠ ')'

theorem bare_append {front back : Text} (first : Bare front) (second : Bare back) :
    Bare (front ++ back) := by
  intro c member
  rcases List.mem_append.mp member with earlier | later
  · exact first c earlier
  · exact second c later

theorem bare_takeWhile {p : Char → Bool} (opening : p '(' = false) (closing : p ')' = false)
    (text : Text) : Bare (text.takeWhile p) := by
  intro c member
  have inside := List.mem_takeWhile_imp member
  constructor
  · rintro rfl
    exact Bool.false_ne_true (opening.symm.trans inside)
  · rintro rfl
    exact Bool.false_ne_true (closing.symm.trans inside)

theorem run_ends {p : Char → Bool} {tail : Text} (closed : tail.head?.any p = false)
    (text : Text) : (text ++ tail).takeWhile p = text.takeWhile p ∧
      (text ++ tail).dropWhile p = text.dropWhile p ++ tail := by
  have stops : (text.dropWhile p ++ tail).head?.any p = false := by
    cases known : text.dropWhile p with
    | nil => simpa using closed
    | cons c rest =>
      have first := Text.dropWhile_closed p text
      rw [known] at first
      exact first
  have inside : ∀ c ∈ text.takeWhile p, p c = true := fun _ => List.mem_takeWhile_imp
  have split := Text.run_append inside stops
  rwa [← List.append_assoc, List.takeWhile_append_dropWhile] at split

theorem nameSpan_run {run rest : Text} (parts : ∀ c ∈ run, isNamePart c = true)
    (closed : rest.head?.any (fun c => isNamePart c || c = '\\') = false) :
    nameSpan .outside (run ++ rest) = (run, rest) := by
  induction run with
  | nil =>
    cases rest with
    | nil => rfl
    | cons c rest =>
      simp only [List.head?_cons, Option.any_some, Bool.or_eq_false_iff, decide_eq_false_iff_not]
        at closed
      simp [nameSpan, Escape.step?, closed.1, closed.2]
  | cons c run ih =>
    obtain ⟨part, parts⟩ := List.forall_mem_cons.mp parts
    simp [nameSpan, Escape.step?, part, ih parts, Span.cons]

theorem decodeName_plain {text : Text} (plain : ∀ c ∈ text, c ≠ '\\' ∧ c ≠ '\x00') :
    decodeName .outside 0 text = text := by
  induction text with
  | nil => rfl
  | cons c rest ih =>
    obtain ⟨⟨escape, null⟩, plain⟩ := List.forall_mem_cons.mp plain
    simp [decodeName, escape, decodeChar, null, ih plain]

theorem nameSpan_ends {text tail : Text} (plain : ∀ c ∈ text, isPlainChar c = true)
    (ends : Ends tail) : nameSpan .outside (text ++ tail) =
      (text.takeWhile isNamePart, text.dropWhile isNamePart ++ tail) := by
  have closed : (text.dropWhile isNamePart ++ tail).head?.any
      (fun c => isNamePart c || c = '\\') = false := by
    cases known : text.dropWhile isNamePart with
    | nil => exact ends.head? (by decide) (by decide)
    | cons c rest =>
      have first := Text.dropWhile_closed isNamePart text
      have member : c ∈ text := (List.dropWhile_suffix _).subset (known ▸ List.mem_cons_self)
      have other := ne_of_isPlainChar (plain c member) (d := '\\') (by decide)
      rw [known] at first
      simpa [other] using first
  have inside : ∀ c ∈ text.takeWhile isNamePart, isNamePart c = true :=
    fun _ => List.mem_takeWhile_imp
  have split := nameSpan_run inside closed
  rwa [← List.append_assoc, List.takeWhile_append_dropWhile] at split

/-- The span function splits plain text before what ends it, and what it splits off has no
brackets. -/
def Stays (split : Text → Span) : Prop :=
  ∀ text tail, (∀ c ∈ text, isPlainChar c = true) → Ends tail →
    ∃ front back, text = front ++ back ∧ split (text ++ tail) = (front, back ++ tail) ∧ Bare front

theorem stays_nil {split : Text → Span} {text tail : Text}
    (same : split (text ++ tail) = ([], text ++ tail)) : ∃ front back,
      text = front ++ back ∧ split (text ++ tail) = (front, back ++ tail) ∧ Bare front :=
  ⟨[], text, rfl, same, nofun⟩

theorem Stays.append {split next : Text → Span} (first : Stays split) (second : Stays next) :
    Stays fun text => ((split text).1 ++ (next (split text).2).1, (next (split text).2).2) := by
  intro text tail plain ends
  obtain ⟨front, middle, rfl, one, bare⟩ := first text tail plain ends
  obtain ⟨run, back, rfl, two, more⟩ := second middle tail
    (fun c member => plain c (List.mem_append_right front member)) ends
  refine ⟨front ++ run, back, by simp, ?_, bare_append bare more⟩
  simp only [one, two]

theorem digitSpan_stays : Stays digitSpan := by
  intro text tail _ ends
  obtain ⟨taken, dropped⟩ := run_ends (ends.head? (p := Text.isDigit) (by decide) (by decide)) text
  refine ⟨text.takeWhile Text.isDigit, text.dropWhile Text.isDigit,
    List.takeWhile_append_dropWhile.symm, ?_, bare_takeWhile (by decide) (by decide) text⟩
  rw [digitSpan, taken, dropped]

theorem signSpan_stays : Stays signSpan := by
  intro text tail _ ends
  cases text with
  | nil =>
    obtain ⟨stop, rest, rfl, rfl | rfl⟩ := ends
    · exact stays_nil rfl
    · exact stays_nil rfl
  | cons c rest =>
    by_cases plus : c = '+'
    · subst plus
      exact ⟨['+'], rest, rfl, rfl, by simp [Bare]⟩
    · by_cases minus : c = '-'
      · subst minus
        exact ⟨['-'], rest, rfl, rfl, by simp [Bare]⟩
      · exact stays_nil (by simp [signSpan, plus, minus])

theorem fractionSpan_stays : Stays fractionSpan := by
  intro text tail plain ends
  cases text with
  | nil =>
    obtain ⟨stop, rest, rfl, rfl | rfl⟩ := ends
    · exact stays_nil rfl
    · exact stays_nil rfl
  | cons c rest =>
    by_cases point : c = '.'
    · subst point
      cases digit : startsDigit (rest ++ tail) with
      | true =>
        obtain ⟨front, back, rfl, split, bare⟩ :=
          digitSpan_stays rest tail (List.forall_mem_cons.mp plain).2 ends
        refine ⟨'.' :: front, back, rfl, ?_, List.forall_mem_cons.mpr ⟨by decide, bare⟩⟩
        simp only [List.cons_append, fractionSpan, digit, if_true, split, Span.cons]
      | false => exact stays_nil (by simp [fractionSpan, digit])
    · exact stays_nil (by simp [fractionSpan, point])

theorem exponentSpan_stays : Stays exponentSpan := by
  intro text tail plain ends
  cases text with
  | nil =>
    obtain ⟨stop, rest, rfl, rfl | rfl⟩ := ends
    · exact stays_nil rfl
    · exact stays_nil rfl
  | cons c rest =>
    by_cases marks :
        ((c = 'e' || c = 'E') && startsDigit (signSpan (rest ++ tail)).2) = true
    · have other : c ≠ '(' ∧ c ≠ ')' := by
        simp only [Bool.and_eq_true, Bool.or_eq_true, decide_eq_true_eq] at marks
        rcases marks.1 with rfl | rfl
        · decide
        · decide
      obtain ⟨front, back, rfl, split, bare⟩ := (signSpan_stays.append digitSpan_stays) rest tail
        (List.forall_mem_cons.mp plain).2 ends
      refine ⟨c :: front, back, rfl, ?_, List.forall_mem_cons.mpr ⟨other, bare⟩⟩
      obtain ⟨digits, left⟩ := Prod.mk.inj split
      simp only [List.cons_append, exponentSpan, marks, if_true, digits, left]
    · refine stays_nil ?_
      simp only [List.cons_append, exponentSpan, if_neg marks]

theorem unitSpan_stays : Stays unitSpan := by
  intro text tail plain ends
  cases text with
  | nil =>
    obtain ⟨stop, rest, rfl, rfl | rfl⟩ := ends
    · exact stays_nil rfl
    · exact stays_nil rfl
  | cons c rest =>
    by_cases percent : c = '%'
    · subst percent
      exact ⟨['%'], rest, rfl, rfl, by simp [Bare]⟩
    · cases starts : startsName (c :: rest ++ tail) with
      | true =>
        refine ⟨(c :: rest).takeWhile isNamePart, (c :: rest).dropWhile isNamePart,
          List.takeWhile_append_dropWhile.symm, ?_, bare_takeWhile (by decide) (by decide) _⟩
        rw [← nameSpan_ends plain ends]
        simp only [List.cons_append] at starts ⊢
        simp [unitSpan, percent, starts]
      | false =>
        refine stays_nil ?_
        simp only [List.cons_append] at starts ⊢
        simp [unitSpan, percent, starts]

theorem numberSpan_stays : Stays numberSpan := by
  have whole := signSpan_stays.append digitSpan_stays
  have decimal := whole.append fractionSpan_stays
  exact (decimal.append exponentSpan_stays).append unitSpan_stays

/-- A token in plain text: brackets are tokens of their own or end the name of a function. -/
inductive Inert : Token → Prop
  | bare {t : Token} : t.opens? = none → t.closes? = none → t.kind ≠ .semicolon → Bare t.text →
      Inert t
  | opening {t : Token} {name : Text} : t.opens? = some .round → t.text = name ++ ['('] →
      Bare name → Inert t
  | closing : Inert ⟨.closing .round, [')']⟩

/-- No address begins in the text, in any case of its letters. -/
def NoAddress (text : Text) : Prop := ¬"url(".toList <:+: text.map Text.lowerAscii

instance (text : Text) : Decidable (NoAddress text) := inferInstanceAs (Decidable (¬_))

theorem lowerAscii_ne {c : Char} (other : c ≠ '(') : Text.lowerAscii c ≠ '(' := by
  unfold Text.lowerAscii
  split
  · rename_i upper
    have ascii : ∀ n < 128, ('A' ≤ Char.ofNat n && Char.ofNat n ≤ 'Z') = true →
        Char.ofNat ((Char.ofNat n).toNat + 32) ≠ '(' := by decide
    have small : c.toNat < 128 :=
      Text.isAsciiAlphanumeric_lt (by simp [Text.isAsciiAlphanumeric, upper])
    have known := ascii c.toNat small
    rw [Char.ofNat_toNat] at known
    exact known upper
  · exact other

theorem noAddress_bare {text : Text} (bare : Bare text) : NoAddress text := by
  intro found
  have member : '(' ∈ text.map Text.lowerAscii := found.subset (by simp)
  obtain ⟨c, inside, same⟩ := List.mem_map.mp member
  exact lowerAscii_ne (bare c inside).1 same

namespace Token

theorem named_ends {text tail left : Text} {t : Token}
    (plain : ∀ c ∈ text, isPlainChar c = true) (address : NoAddress text) (ends : Ends tail)
    (found : named (text ++ tail) = (t, left)) :
    ∃ back, left = back ++ tail ∧ text = t.text ++ back ∧ Inert t := by
  have whole : text.takeWhile isNamePart ++ text.dropWhile isNamePart = text :=
    List.takeWhile_append_dropWhile
  have bare : Bare (text.takeWhile isNamePart) := bare_takeWhile (by decide) (by decide) text
  have name : decodeName .outside 0 (text.takeWhile isNamePart) = text.takeWhile isNamePart := by
    refine decodeName_plain fun c member => ?_
    have known := plain c ((List.takeWhile_prefix _).subset member)
    exact ⟨ne_of_isPlainChar known (by decide), ne_of_isPlainChar known (by decide)⟩
  simp only [named, nameSpan_ends plain ends, name] at found
  split at found
  · rename_i inner rest
    cases known : text.dropWhile isNamePart with
    | nil =>
      obtain ⟨stop, more, rfl, rfl | rfl⟩ := ends
      · simp [known] at rest
      · simp [known] at rest
    | cons d back =>
      rw [known] at rest whole
      obtain ⟨rfl, rfl⟩ := List.cons.inj rest
      have other : (text.takeWhile isNamePart).map Text.lowerAscii ≠ "url".toList := by
        intro same
        refine address ⟨[], back.map Text.lowerAscii, ?_⟩
        rw [← whole, List.map_append, same]
        rfl
      rw [if_neg other] at found
      cases found
      exact ⟨back, rfl, by simp [whole], .opening rfl rfl bare⟩
  · cases found
    exact ⟨_, rfl, whole.symm, .bare rfl rfl nofun bare⟩

theorem punctuation_inert {c : Char} {kind : Kind} (plain : isPlainChar c = true)
    (sign : punctuation? c = some kind) : Inert ⟨kind, [c]⟩ := by
  have never : ∀ d, isPlainChar d = false → c ≠ d := fun d => ne_of_isPlainChar plain
  unfold punctuation? at sign
  split at sign
  · cases sign
    exact @Inert.opening _ [] rfl rfl nofun
  · exact (never '[' (by decide) rfl).elim
  · exact (never '{' (by decide) rfl).elim
  · cases sign
    exact .closing
  · exact (never ']' (by decide) rfl).elim
  · exact (never '}' (by decide) rfl).elim
  · cases sign
    exact .bare rfl rfl nofun (by simp [Bare])
  · exact (never ';' (by decide) rfl).elim
  · contradiction

theorem closer_ends {text tail left : Text} (ends : Ends tail)
    (spelled : text ++ tail = "-->".toList ++ left) : ∃ back, left = back ++ tail ∧
      text = "-->".toList ++ back ∧ Inert ⟨.commentCloser, "-->".toList⟩ := by
  have bare : Bare "-->".toList := by simp [Bare]
  obtain ⟨stop, more, rfl, mark⟩ := ends
  have other : stop ∉ "-->".toList := by
    rcases mark with rfl | rfl
    · decide
    · decide
  rcases List.append_eq_append_iff.mp spelled with ⟨back, inner, rest⟩ | ⟨back, rfl, rest⟩
  · cases back with
    | nil =>
      exact ⟨[], by simpa using rest.symm, by simpa using inner.symm, .bare rfl rfl nofun bare⟩
    | cons c back =>
      obtain ⟨rfl, _⟩ := List.cons.inj rest
      exact (other (inner ▸ by simp)).elim
  · exact ⟨back, rest, rfl, .bare rfl rfl nofun bare⟩

theorem next?_ends {text tail left : Text} {t : Token} (filled : text ≠ [])
    (plain : ∀ c ∈ text, isPlainChar c = true) (address : NoAddress text) (ends : Ends tail)
    (found : next? (text ++ tail) = some (t, left)) :
    ∃ back, left = back ++ tail ∧ text = t.text ++ back ∧ Inert t := by
  obtain ⟨c, rest, rfl⟩ := List.exists_cons_of_ne_nil filled
  obtain ⟨first, inside⟩ := List.forall_mem_cons.mp plain
  have never : ∀ d, isPlainChar d = false → c ≠ d := fun d => ne_of_isPlainChar first
  rw [List.cons_append] at found
  replace found := Option.some.inj found
  split at found
  · rename_i space
    obtain ⟨taken, dropped⟩ := run_ends (ends.head? (p := isSpace) (by decide) (by decide)) rest
    rw [List.takeWhile_cons_of_pos space, taken, dropped] at found
    cases found
    have bare := bare_takeWhile (p := isSpace) (by decide) (by decide) (c :: rest)
    rw [List.takeWhile_cons_of_pos space] at bare
    exact ⟨rest.dropWhile isSpace, rfl, by simp, .bare rfl rfl (by simp) bare⟩
  · split at found
    · rename_i quote
      rw [Bool.or_eq_true, decide_eq_true_eq, decide_eq_true_eq] at quote
      exact (quote.elim (never '"' (by decide)) (never '\'' (by decide))).elim
    · split at found
      · rename_i hash
        obtain rfl : c = '#' := by simpa using (Bool.and_eq_true_iff.mp hash).1
        rw [nameSpan_ends inside ends] at found
        cases found
        have bare := bare_takeWhile (p := isNamePart) (by decide) (by decide) rest
        exact ⟨rest.dropWhile isNamePart, rfl, by simp [Span.cons],
          .bare rfl rfl (by simp) (List.forall_mem_cons.mpr ⟨by decide, bare⟩)⟩
      · split at found
        · rename_i keyword
          have sign : c = '@' := by simpa using (Bool.and_eq_true_iff.mp keyword).1
          exact (never '@' (by decide) sign).elim
        · split at found
          · obtain ⟨front, back, whole, split, bare⟩ := numberSpan_stays (c :: rest) tail plain ends
            rw [← List.cons_append, split] at found
            cases found
            exact ⟨back, rfl, whole, .bare rfl rfl (by simp) bare⟩
          · split at found
            · exact named_ends plain address ends found
            · split at found
              · rename_i kind sign
                cases found
                exact ⟨rest, rfl, rfl, punctuation_inert first sign⟩
              · rename_i unsigned
                have bare : Bare [c] := by
                  refine List.forall_mem_singleton.mpr ⟨?_, ?_⟩
                  · rintro rfl
                    cases unsigned
                  · rintro rfl
                    cases unsigned
                split at found
                · rename_i opened
                  have sign := (List.cons.inj (Text.after?_eq_some.mp opened)).1
                  exact (never '/' (by decide) sign).elim
                · rename_i opened _
                  have sign := (List.cons.inj (Text.after?_eq_some.mp opened)).1
                  exact (never '<' (by decide) sign).elim
                · rename_i closed _ _
                  cases found
                  exact closer_ends ends (Text.after?_eq_some.mp closed)
                · cases found
                  exact ⟨rest, rfl, rfl, .bare rfl rfl (by simp) bare⟩

end Token

/-- How deep the round brackets are open after a text; none if one is closed that is not open. -/
def depthAfter : (depth : Nat) → Text → Option Nat
  | depth, [] => some depth
  | depth, '(' :: rest => depthAfter (depth + 1) rest
  | 0, ')' :: _ => none
  | depth + 1, ')' :: rest => depthAfter depth rest
  | depth, _ :: rest => depthAfter depth rest

theorem depthAfter_cons {c : Char} (opening : c ≠ '(') (closing : c ≠ ')') (depth : Nat)
    (rest : Text) : depthAfter depth (c :: rest) = depthAfter depth rest := by
  cases depth with
  | zero => simp [depthAfter, closing]
  | succ depth => simp [depthAfter, closing]

theorem depthAfter_bare {text : Text} (bare : Bare text) (depth : Nat) :
    depthAfter depth text = some depth := by
  induction text with
  | nil => simp [depthAfter]
  | cons c rest ih =>
    obtain ⟨⟨opening, closing⟩, bare⟩ := List.forall_mem_cons.mp bare
    rw [depthAfter_cons opening closing, ih bare]

theorem depthAfter_append (depth : Nat) (front back : Text) :
    depthAfter depth (front ++ back) = (depthAfter depth front).bind (depthAfter · back) := by
  induction front generalizing depth with
  | nil => simp [depthAfter]
  | cons c front ih =>
    by_cases opening : c = '('
    · simp [opening, depthAfter, ih]
    · by_cases closing : c = ')'
      · cases depth with
        | zero => simp [closing, depthAfter]
        | succ depth => simp [closing, depthAfter, ih]
      · rw [List.cons_append, depthAfter_cons opening closing, depthAfter_cons opening closing, ih]

namespace Token

/-- The brackets open after some tokens. -/
def nestAll (ts : List Token) (nesting : List Bracket) : List Bracket :=
  ts.foldl (fun nesting t => t.nest nesting) nesting

theorem nest_inert {t : Token} (inert : Inert t) {depth after : Nat}
    (known : depthAfter depth t.text = some after) :
    t.nest (List.replicate depth .round) = List.replicate after .round := by
  cases inert with
  | bare opens closes _ bare =>
    rw [depthAfter_bare bare, Option.some.injEq] at known
    simp [nest, opens, closes, known]
  | opening opens text bare =>
    rw [text, depthAfter_append, depthAfter_bare bare] at known
    obtain rfl : depth + 1 = after := by simpa [depthAfter] using known
    simp [nest, opens, List.replicate_succ]
  | closing =>
    cases depth with
    | zero => simp [depthAfter] at known
    | succ depth =>
      obtain rfl : depth = after := by simpa [depthAfter] using known
      rfl

theorem scan_ends {text tail : Text} (plain : ∀ c ∈ text, isPlainChar c = true)
    (address : NoAddress text) (ends : Ends tail) {depth after : Nat}
    (known : depthAfter depth text = some after) :
    ∃ ts, scan (text ++ tail) = ts ++ scan tail ∧ source ts = text ∧ (∀ t ∈ ts, Inert t) ∧
      nestAll ts (List.replicate depth .round) = List.replicate after .round := by
  -- A token leaves a shorter text, which need not be the tail.
  induction measured : text.length using Nat.strongRecOn generalizing text depth with
  | ind size ih =>
    cases text with
    | nil =>
      obtain rfl : depth = after := by simpa [depthAfter] using known
      exact ⟨[], rfl, rfl, nofun, rfl⟩
    | cons c rest =>
      obtain ⟨⟨t, left⟩, found⟩ : ∃ pair, next? (c :: rest ++ tail) = some pair := ⟨_, rfl⟩
      obtain ⟨back, rfl, whole, inert⟩ :=
        next?_ends (List.cons_ne_nil c rest) plain address ends found
      rw [whole] at plain address known measured found ⊢
      rw [depthAfter_append] at known
      obtain ⟨middle, first, later⟩ := Option.bind_eq_some_iff.mp known
      have shorter : back.length < size := by
        have filled := List.length_pos_iff.mpr (next?_covers found).1
        rw [List.length_append] at measured
        omega
      have inside : NoAddress back := by
        intro ⟨before, behind, spelled⟩
        exact address ⟨t.text.map Text.lowerAscii ++ before, behind, by simp [← spelled]⟩
      obtain ⟨ts, scanned, covered, inerts, nested⟩ := ih back.length shorter
        (fun d member => plain d (List.mem_append_right _ member)) inside later rfl
      refine ⟨t :: ts, ?_, ?_, List.forall_mem_cons.mpr ⟨inert, inerts⟩, ?_⟩
      · rw [scan_cons found, scanned]
        rfl
      · rw [← covered]
        rfl
      · rw [← nested, ← nest_inert inert first]
        rfl

end Token
end ColorTheme.Css
