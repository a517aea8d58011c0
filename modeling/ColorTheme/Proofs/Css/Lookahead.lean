import ColorTheme.Proofs.Css.Token
import Mathlib.Data.List.TakeWhile

/-!
How far a token looks ahead. A token that was read in front of one text is read in front of
another as well, where the two begin alike: the first character, what it starts together with the
next one, and the two places where a token looks further. -/
namespace ColorTheme.Css

/-- A quote comes first, perhaps after space. -/
def startsQuoted (text : Text) : Bool :=
  (text.dropWhile isSpace).head?.any fun c => c = '"' || c = '\''

theorem startsName_of_head {v w : Text} (head : w.head? = v.head?) (c : Char) :
    startsName (c :: w) = startsName (c :: v) := by
  by_cases minus : c = '-'
  · subst minus
    cases v with
    | nil => rw [List.head?_eq_none_iff.mp head]
    | cons d v =>
      obtain ⟨w, rfl⟩ := List.head?_eq_some_iff.mp head
      rfl
  · by_cases escape : c = '\\'
    · subst escape
      simp only [startsName, startsNewline, head]
    · simp [startsName, minus]

/-- Neither a name nor an escape goes on here. -/
def Halts (text : Text) : Prop := text.head?.any (fun c => isNamePart c || c = '\\') = false

namespace Halts

variable {text : Text}

theorem ne_cons (halts : Halts text) {c : Char} (goes : (isNamePart c || c = '\\') = true)
    (rest : Text) : text ≠ c :: rest := by
  rintro rfl
  exact Bool.false_ne_true (halts.symm.trans goes)

theorem startsDigit (halts : Halts text) : startsDigit text = false := by
  cases text with
  | nil => rfl
  | cons c rest =>
    rw [← Bool.not_eq_true]
    intro digit
    replace digit : Text.isDigit c = true := digit
    exact halts.ne_cons (by simp [isNamePart, digit]) rest rfl

theorem hyphen (halts : Halts text) : startsName ('-' :: text) = false := by
  cases text with
  | nil => rfl
  | cons c rest =>
    have stops : (isNamePart c || c = '\\') = false := halts
    simp only [isNamePart, Bool.or_eq_false_iff] at stops
    simp only [startsName, stops, Bool.or_self]

end Halts

/-- Nothing that a token can notice of the text behind it is another in `w` than in `v`. -/
structure Seen (v w : Text) : Prop where
  head : w.head? = v.head?
  digit : v.head?.any (fun c => c = '.' || c = '+' || c = '-') = true →
    startsDigit w.tail = startsDigit v.tail
  name : startsName w = startsName v
  opener : "!--".toList <+: w → "!--".toList <+: v
  dashes : "--".toList <+: w → "--".toList <+: v
  quoted : startsQuoted v = true → startsQuoted w = true

namespace Seen

theorem cases_head {v w : Text} (seen : Seen v w) :
    v = [] ∧ w = [] ∨ ∃ c v' w', v = c :: v' ∧ w = c :: w' := by
  have same := seen.head
  cases v with
  | nil => exact .inl ⟨rfl, List.head?_eq_none_iff.mp same⟩
  | cons c v =>
    obtain ⟨w', spelled⟩ := List.head?_eq_some_iff.mp same
    exact .inr ⟨c, v, w', rfl, spelled⟩

theorem startsDigit {v w : Text} (seen : Seen v w) : startsDigit w = startsDigit v := by
  unfold Css.startsDigit
  rw [seen.head]

theorem startsNewline {v w : Text} (seen : Seen v w) : startsNewline w = startsNewline v := by
  unfold Css.startsNewline
  rw [seen.head]

theorem startsName_cons {v w : Text} (seen : Seen v w) (c : Char) :
    startsName (c :: w) = startsName (c :: v) := startsName_of_head seen.head c

theorem cons {v w : Text} (seen : Seen v w) (c : Char) : Seen (c :: v) (c :: w) where
  head := rfl
  digit _ := seen.startsDigit
  name := seen.startsName_cons c
  opener start := by
    obtain ⟨rfl, later⟩ := List.cons_prefix_cons.mp start
    exact List.cons_prefix_cons.mpr ⟨rfl, seen.dashes later⟩
  dashes start := by
    obtain ⟨rfl, later⟩ := List.cons_prefix_cons.mp start
    rcases seen.cases_head with ⟨rfl, rfl⟩ | ⟨d, v, w, rfl, rfl⟩
    · exact start
    · obtain ⟨rfl, _⟩ := List.cons_prefix_cons.mp later
      exact ⟨v, rfl⟩
  quoted start := by
    by_cases space : isSpace c = true
    · simp only [startsQuoted, List.dropWhile_cons_of_pos space] at start ⊢
      exact seen.quoted start
    · simpa only [startsQuoted, List.dropWhile_cons_of_neg space, List.head?_cons] using start

theorem append {v w : Text} (seen : Seen v w) (x : Text) : Seen (x ++ v) (x ++ w) := by
  induction x with
  | nil => exact seen
  | cons c x ih => exact ih.cons c

theorem of_calm {c : Char} (calm : ".+-!\\".toList.contains c = false) {v w : Text}
    (quoted : startsQuoted (c :: v) = true → startsQuoted (c :: w) = true) :
    Seen (c :: v) (c :: w) := by
  have other : ∀ d ∈ ".+-!\\".toList, c ≠ d := by
    rintro d member rfl
    rw [List.contains_iff_mem.mpr member] at calm
    contradiction
  have point := other '.' (by decide)
  have plus := other '+' (by decide)
  have minus := other '-' (by decide)
  have mark := other '!' (by decide)
  have escape := other '\\' (by decide)
  refine ⟨rfl, by simp [point, plus, minus], by simp_all [startsName], fun start => ?_,
    fun start => ?_, quoted⟩
  · exact absurd (List.cons_prefix_cons.mp start).1 (Ne.symm mark)
  · exact absurd (List.cons_prefix_cons.mp start).1 (Ne.symm minus)

theorem stop {c : Char} (calm : ".+-!\\".toList.contains c = false) (rest : Text) :
    Seen [c] (c :: rest) := by
  refine of_calm calm fun start => ?_
  unfold startsQuoted at start ⊢
  by_cases space : isSpace c = true
  · simp [space] at start
  · simpa [space] using start

/-- In front of texts that both halt, the text `c :: x` may end with any token. -/
theorem behind {c : Char} {x v w : Text} (solid : isSpace c = false) (escape : c :: x ≠ ['\\'])
    (one : Halts v) (two : Halts w) : Seen (c :: x ++ v) (c :: x ++ w) where
  head := rfl
  digit _ := by
    cases x with
    | nil => exact two.startsDigit.trans one.startsDigit.symm
    | cons d x => rfl
  name := by
    cases x with
    | nil =>
      by_cases minus : c = '-'
      · subst minus
        exact two.hyphen.trans one.hyphen.symm
      · have other : c ≠ '\\' := fun same => escape (by rw [same])
        simp_all [startsName]
    | cons d x => exact startsName_of_head (v := d :: x ++ v) (w := d :: x ++ w) rfl c
  opener start := by
    obtain ⟨rest, spelled⟩ := start
    replace spelled : '!' :: '-' :: '-' :: rest = c :: (x ++ w) := spelled
    obtain ⟨rfl, dashes⟩ := List.cons.inj spelled
    match x, dashes with
    | [], dashes => exact (two.ne_cons (by decide) _ dashes.symm).elim
    | [_], dashes => exact (two.ne_cons (by decide) _ (List.cons.inj dashes).2.symm).elim
    | d :: e :: x, dashes =>
      obtain ⟨rfl, dash⟩ := List.cons.inj dashes
      obtain ⟨rfl, _⟩ := List.cons.inj dash
      exact ⟨x ++ v, rfl⟩
  dashes start := by
    obtain ⟨rest, spelled⟩ := start
    replace spelled : '-' :: '-' :: rest = c :: (x ++ w) := spelled
    obtain ⟨rfl, dash⟩ := List.cons.inj spelled
    match x, dash with
    | [], dash => exact (two.ne_cons (by decide) _ dash.symm).elim
    | d :: x, dash =>
      obtain ⟨rfl, _⟩ := List.cons.inj dash
      exact ⟨x ++ v, rfl⟩
  quoted start := by
    simpa [startsQuoted, solid] using start

end Seen

theorem Span.cons_eq {c d : Char} {x v : Text} {span : Span} :
    Span.cons c span = (d :: x, v) ↔ c = d ∧ span = (x, v) := by
  obtain ⟨front, back⟩ := span
  simp [Span.cons, and_assoc]

theorem Span.cons_ne {c : Char} {v : Text} {span : Span} : Span.cons c span ≠ ([], v) := by
  simp [Span.cons]

theorem Span.cons_cons_eq {c d : Char} {x v rest : Text} {span : Span}
    (whole : x ++ v = c :: d :: rest) (split : Span.cons c (Span.cons d span) = (x, v)) :
    ∃ x', x = c :: d :: x' ∧ x' ++ v = rest ∧ span = (x', v) := by
  match x, whole, split with
  | [], _, split => exact (Span.cons_ne split).elim
  | [_], _, split => exact (Span.cons_ne (Span.cons_eq.mp split).2).elim
  | _ :: _ :: x, whole, split =>
    obtain ⟨rfl, second⟩ := Span.cons_eq.mp split
    obtain ⟨rfl, inner⟩ := Span.cons_eq.mp second
    exact ⟨x, rfl, by simpa using whole, inner⟩

theorem nameSpan_seen {state : Escape} {x v w : Text} (seen : Seen v w)
    (split : nameSpan state (x ++ v) = (x, v)) : nameSpan state (x ++ w) = (x, w) := by
  induction x generalizing state with
  | nil =>
    rcases seen.cases_head with ⟨rfl, rfl⟩ | ⟨c, v, w, rfl, rfl⟩
    · exact split
    · have name := seen.name
      simp only [List.nil_append, nameSpan] at split ⊢
      split at split
      · exact (Span.cons_ne split).elim
      · split at split
        · exact (Span.cons_ne split).elim
        · split at split
          · exact (Span.cons_ne split).elim
          · rename_i part escape
            have other : ¬(c = '\\' && !startsNewline w) = true := by
              intro same
              obtain ⟨slash, newline⟩ := Bool.and_eq_true_iff.mp same
              obtain rfl : c = '\\' := by simpa using slash
              simp only [startsName] at name
              rw [name] at newline
              exact escape (by simpa using newline)
            rw [if_neg part, if_neg other]
  | cons c x ih =>
    have newline := (seen.append x).startsNewline
    simp only [List.cons_append, nameSpan, newline] at split ⊢
    split at split
    · exact Span.cons_eq.mpr ⟨rfl, ih (Span.cons_eq.mp split).2⟩
    · split at split
      · rename_i part
        rw [if_pos part]
        exact Span.cons_eq.mpr ⟨rfl, ih (Span.cons_eq.mp split).2⟩
      · split at split
        · rename_i part escape
          rw [if_neg part, if_pos escape]
          exact Span.cons_eq.mpr ⟨rfl, ih (Span.cons_eq.mp split).2⟩
        · cases split

theorem stringSpan_seen {quote : Char} {state : Escape} {kind : Kind} {x v w : Text}
    (seen : Seen v w) (split : stringSpan quote state (x ++ v) = (kind, x, v)) :
    stringSpan quote state (x ++ w) = (kind, x, w) := by
  induction x generalizing state with
  | nil =>
    rcases seen.cases_head with ⟨rfl, rfl⟩ | ⟨c, v, w, rfl, rfl⟩
    · exact split
    · simp only [List.nil_append, stringSpan] at split ⊢
      split at split
      · exact (Span.cons_ne (Prod.mk.inj split).2).elim
      · split at split
        · simp at split
        · split at split
          · rename_i other newline
            rw [if_neg other, if_pos newline]
            rw [← (Prod.mk.inj split).1]
          · exact (Span.cons_ne (Prod.mk.inj split).2).elim
  | cons c x ih =>
    have further : ∀ {state : Escape}, (stringSpan quote state (x ++ v)).1 = kind →
        Span.cons c (stringSpan quote state (x ++ v)).2 = (c :: x, v) →
          stringSpan quote state (x ++ w) = (kind, x, w) := by
      intro state same whole
      exact ih (Prod.ext same (Span.cons_eq.mp whole).2)
    simp only [List.cons_append, stringSpan] at split ⊢
    split at split
    · obtain ⟨same, whole⟩ := Prod.mk.inj split
      rw [further same whole]
      rfl
    · split at split
      · rename_i closes
        obtain ⟨rfl, whole⟩ := Prod.mk.inj split
        obtain ⟨inside, rest⟩ := Prod.mk.inj whole
        obtain rfl : x = [] := (List.cons.inj inside).2.symm
        rw [if_pos closes]
        rfl
      · split at split
        · simp at split
        · rename_i other newline
          obtain ⟨same, whole⟩ := Prod.mk.inj split
          rw [if_neg other, if_neg newline, further same whole]
          rfl

theorem commentSpan_ne_nil {text : Text} (filled : text ≠ []) : (commentSpan text).1 ≠ [] := by
  unfold commentSpan
  split
  · contradiction
  · simp
  · simp [Span.cons]

theorem commentSpan_closed {x v : Text} (split : commentSpan (x ++ v) = (x, v)) (more : v ≠ [])
    (w : Text) : commentSpan (x ++ w) = (x, w) := by
  generalize whole : x ++ v = text at split
  fun_induction commentSpan text generalizing x with
  | case1 => exact absurd (List.append_eq_nil_iff.mp whole).2 more
  | case2 rest =>
    obtain ⟨rfl, rfl⟩ := Prod.mk.inj split
    rfl
  | case3 c rest opened ih =>
    cases x with
    | nil => exact (Span.cons_ne split).elim
    | cons d x =>
      obtain ⟨rfl, inner⟩ := Span.cons_eq.mp split
      simp only [List.cons_append, List.cons.injEq, true_and] at whole
      rw [List.cons_append, commentSpan.eq_3]
      · exact Span.cons_eq.mpr ⟨rfl, ih whole inner⟩
      -- The comment goes on behind this character, so the next one is the same in both texts.
      · intro behind star slash
        cases x with
        | nil =>
          subst whole
          exact commentSpan_ne_nil more (congrArg Prod.fst inner)
        | cons e x =>
          obtain ⟨rfl, _⟩ := List.cons.inj slash
          exact opened (x ++ v) star whole.symm

theorem badUrlSpan_ne_nil {text : Text} (filled : text ≠ []) : (badUrlSpan text).1 ≠ [] := by
  unfold badUrlSpan
  split
  · contradiction
  · simp [Span.cons]
  · simp [Span.cons]
  · split
    · simp
    · simp [Span.cons]

theorem badUrlSpan_closed {x v : Text} (split : badUrlSpan (x ++ v) = (x, v)) (more : v ≠ [])
    (w : Text) : badUrlSpan (x ++ w) = (x, w) := by
  generalize whole : x ++ v = text at split
  fun_induction badUrlSpan text generalizing x with
  | case1 => exact absurd (List.append_eq_nil_iff.mp whole).2 more
  | case2 rest ih =>
    obtain ⟨x, rfl, whole, inner⟩ := Span.cons_cons_eq whole split
    exact Span.cons_eq.mpr ⟨rfl, Span.cons_eq.mpr ⟨rfl, ih whole inner⟩⟩
  | case3 rest ih =>
    obtain ⟨x, rfl, whole, inner⟩ := Span.cons_cons_eq whole split
    exact Span.cons_eq.mpr ⟨rfl, Span.cons_eq.mpr ⟨rfl, ih whole inner⟩⟩
  | case4 rest =>
    obtain ⟨rfl, rfl⟩ := Prod.mk.inj split
    simp [badUrlSpan]
  | case5 c rest bracket backslash open_ ih =>
    cases x with
    | nil => exact (Span.cons_ne split).elim
    | cons d x =>
      obtain ⟨rfl, inner⟩ := Span.cons_eq.mp split
      simp only [List.cons_append, List.cons.injEq, true_and] at whole
      -- A backslash shields here what it shielded there, since the address goes on behind it.
      have other : ∀ e, (∀ behind, c = '\\' → rest = e :: behind → False) →
          ∀ behind, c = '\\' → x ++ w = e :: behind → False := by
        intro e never behind escape spelled
        cases x with
        | nil =>
          subst whole
          exact badUrlSpan_ne_nil more (congrArg Prod.fst inner)
        | cons f x =>
          obtain ⟨rfl, _⟩ := List.cons.inj spelled
          exact never (x ++ v) escape whole.symm
      rw [List.cons_append, badUrlSpan.eq_4 _ _ (other _ bracket) (other _ backslash), if_neg open_]
      exact Span.cons_eq.mpr ⟨rfl, ih whole inner⟩

theorem urlEndSpan_ne_nil {text : Text} (filled : text ≠ []) : (urlEndSpan text).2.1 ≠ [] := by
  cases text with
  | nil => contradiction
  | cons c rest =>
    unfold urlEndSpan
    split
    · simp
    · split
      · simp [Span.cons]
      · simp [Span.cons]

theorem urlEndSpan_closed {kind : Kind} {x v : Text}
    (split : urlEndSpan (x ++ v) = (kind, x, v)) (more : v ≠ []) (w : Text) :
    urlEndSpan (x ++ w) = (kind, x, w) := by
  induction x with
  | nil =>
    cases v with
    | nil => contradiction
    | cons c v =>
      simp only [List.nil_append, urlEndSpan] at split
      split at split
      · simp at split
      · split at split
        · exact (Span.cons_ne (Prod.mk.inj split).2).elim
        · exact (Span.cons_ne (Prod.mk.inj split).2).elim
  | cons c x ih =>
    simp only [List.cons_append, urlEndSpan] at split ⊢
    split at split
    · rename_i closes
      obtain ⟨rfl, whole⟩ := Prod.mk.inj split
      obtain rfl : x = [] := (List.cons.inj (Prod.mk.inj whole).1).2.symm
      rw [if_pos closes]
      rfl
    · rename_i other
      rw [if_neg other]
      split at split
      · rename_i space
        obtain ⟨same, whole⟩ := Prod.mk.inj split
        rw [if_pos space, ih (Prod.ext same (Span.cons_eq.mp whole).2)]
        rfl
      · rename_i spoiled
        obtain ⟨rfl, whole⟩ := Prod.mk.inj split
        rw [if_neg spoiled, badUrlSpan_closed (Span.cons_eq.mp whole).2 more w]
        rfl

theorem urlBodySpan_ne_nil {text : Text} (filled : text ≠ []) (state : Escape) :
    (urlBodySpan state text).2.1 ≠ [] := by
  cases text with
  | nil => contradiction
  | cons c rest =>
    unfold urlBodySpan
    dsimp only
    split
    · simp [Span.cons]
    · split
      · exact urlEndSpan_ne_nil (List.cons_ne_nil c rest)
      · split
        · simp
        · split
          · simp [Span.cons]
          · simp [Span.cons]

theorem urlBodySpan_closed {state : Escape} {kind : Kind} {x v : Text}
    (split : urlBodySpan state (x ++ v) = (kind, x, v)) (more : v ≠ []) (w : Text) :
    urlBodySpan state (x ++ w) = (kind, x, w) := by
  induction x generalizing state with
  | nil => exact absurd (congrArg (·.2.1) split) (urlBodySpan_ne_nil more state)
  | cons c x ih =>
    have further : ∀ {state : Escape}, (urlBodySpan state (x ++ v)).1 = kind →
        Span.cons c (urlBodySpan state (x ++ v)).2 = (c :: x, v) →
          urlBodySpan state (x ++ w) = (kind, x, w) := by
      intro state same whole
      exact ih (Prod.ext same (Span.cons_eq.mp whole).2)
    -- An address that goes on has a next character, the same in both texts.
    have newline : Span.cons c (badUrlSpan (x ++ v)) = (c :: x, v) ∨
        (∃ state, Span.cons c (urlBodySpan state (x ++ v)).2 = (c :: x, v)) →
          startsNewline (x ++ w) = startsNewline (x ++ v) := by
      intro goes
      cases x with
      | nil =>
        rcases goes with bad | ⟨state, good⟩
        · exact absurd (congrArg Prod.fst (Span.cons_eq.mp bad).2) (badUrlSpan_ne_nil more)
        · exact absurd (congrArg Prod.fst (Span.cons_eq.mp good).2) (urlBodySpan_ne_nil more state)
      | cons d x => rfl
    simp only [List.cons_append, urlBodySpan] at split ⊢
    split at split
    · obtain ⟨same, whole⟩ := Prod.mk.inj split
      rw [further same whole]
      rfl
    · split at split
      · rename_i space
        rw [if_pos space]
        exact urlEndSpan_closed (x := c :: x) split more w
      · rename_i solid
        rw [if_neg solid]
        split at split
        · rename_i closes
          obtain ⟨rfl, whole⟩ := Prod.mk.inj split
          obtain rfl : x = [] := (List.cons.inj (Prod.mk.inj whole).1).2.symm
          rw [if_pos closes]
          rfl
        · rename_i other
          rw [if_neg other]
          split at split
          · rename_i spoiled
            obtain ⟨rfl, whole⟩ := Prod.mk.inj split
            rw [newline (.inl whole), if_pos spoiled,
              badUrlSpan_closed (Span.cons_eq.mp whole).2 more w]
            rfl
          · rename_i plain
            obtain ⟨same, whole⟩ := Prod.mk.inj split
            rw [newline (.inr ⟨_, whole⟩), if_neg plain, further same whole]
            rfl

theorem urlSpan?_eq_none {text : Text} : urlSpan? text = none ↔ startsQuoted text = true := by
  unfold urlSpan? startsQuoted
  dsimp only
  cases text.dropWhile isSpace with
  | nil => simp
  | cons c rest =>
    simp only [List.head?_cons, Option.any_some, Bool.or_eq_true, decide_eq_true_eq]
    split
    · rename_i quote
      simp [quote]
    · rename_i other
      split
      · simp [other]
      · simp [other]

theorem urlSpan?_space {blank rest : Text} {c : Char} (spaces : ∀ d ∈ blank, isSpace d = true)
    (solid : isSpace c = false) : urlSpan? (blank ++ c :: rest) =
      if c = '"' || c = '\'' then none
      else if c = ')' then some (.url, blank ++ [c], rest)
      else
        let (kind, span) := urlBodySpan .outside (c :: rest)
        some (kind, blank ++ span.1, span.2) := by
  have closed : (c :: rest).head?.any isSpace = false := by simpa using solid
  obtain ⟨taken, dropped⟩ := Text.run_append spaces closed
  simp only [urlSpan?, taken, dropped]

theorem urlSpan?_closed {kind : Kind} {x v : Text}
    (found : urlSpan? (x ++ v) = some (kind, x, v)) (more : v ≠ []) (w : Text) :
    urlSpan? (x ++ w) = some (kind, x, w) := by
  have spaces : ∀ c ∈ (x ++ v).takeWhile isSpace, isSpace c = true :=
    fun _ => List.mem_takeWhile_imp
  have stops := Text.dropWhile_closed isSpace (x ++ v)
  have whole : (x ++ v).takeWhile isSpace ++ (x ++ v).dropWhile isSpace = x ++ v :=
    List.takeWhile_append_dropWhile
  generalize (x ++ v).takeWhile isSpace = blank at spaces whole
  cases known : (x ++ v).dropWhile isSpace with
  | nil =>
    simp only [urlSpan?, known, Option.some.injEq, Prod.mk.injEq] at found
    exact absurd found.2.2.symm more
  | cons c rest =>
    have solid : isSpace c = false := by simpa [known] using stops
    rw [known] at whole
    rw [← whole, urlSpan?_space spaces solid] at found
    split at found
    · contradiction
    · rename_i unquoted
      split at found
      · rename_i closes
        simp only [Option.some.injEq, Prod.mk.injEq] at found
        obtain ⟨rfl, rfl, rfl⟩ := found
        rw [List.append_assoc, List.singleton_append, urlSpan?_space spaces solid, if_neg unquoted,
          if_pos closes]
      · rename_i other
        have filled := urlBodySpan_ne_nil (List.cons_ne_nil c rest) .outside
        have covers := urlBodySpan_covers .outside (c :: rest)
        generalize address : urlBodySpan .outside (c :: rest) = body at found filled covers
        obtain ⟨_, front, back⟩ := body
        simp only [Option.some.injEq, Prod.mk.injEq] at found
        obtain ⟨rfl, rfl, rfl⟩ := found
        obtain ⟨d, inside, rfl⟩ := List.exists_cons_of_ne_nil filled
        replace covers : d :: inside ++ back = c :: rest := covers
        have again := urlBodySpan_closed (covers ▸ address) more w
        obtain ⟨rfl, rfl⟩ := List.cons.inj covers
        rw [List.cons_append] at again
        rw [List.append_assoc, List.cons_append, urlSpan?_space spaces solid, if_neg unquoted,
          if_neg other, again]

def Span.chain (first second : Text → Span) (text : Text) : Span :=
  ((first text).1 ++ (second (first text).2).1, (second (first text).2).2)

theorem Span.chain_covers {first second : Text → Span} (one : ∀ text, Covers text (first text))
    (two : ∀ text, Covers text (second text)) (text : Text) :
    Covers text (Span.chain first second text) := (one text).append (two _)

theorem Span.chain_eq {first second : Text → Span} (one : ∀ text, Covers text (first text))
    (two : ∀ text, Covers text (second text)) {x v : Text}
    (split : Span.chain first second (x ++ v) = (x, v)) : ∃ front back, x = front ++ back ∧
      first (front ++ (back ++ v)) = (front, back ++ v) ∧ second (back ++ v) = (back, v) := by
  have covered := one (x ++ v)
  have inner := two (first (x ++ v)).2
  obtain ⟨run, left⟩ := Prod.mk.inj split
  unfold Covers at covered inner
  rw [left] at inner
  have whole : (first (x ++ v)).1 ++ ((second (first (x ++ v)).2).1 ++ v) = x ++ v := by
    rw [inner, covered]
  refine ⟨(first (x ++ v)).1, (second (first (x ++ v)).2).1, run.symm, ?_, ?_⟩
  · rw [whole, inner]
  · rw [inner]
    exact Prod.ext rfl left

/-- A run that ended in front of `v` ends in front of `w`. -/
theorem run_seen {p : Char → Bool} {x v w : Text} (seen : Seen v w)
    (taken : (x ++ v).takeWhile p = x) (dropped : (x ++ v).dropWhile p = v) :
    (x ++ w).takeWhile p = x ∧ (x ++ w).dropWhile p = w := by
  have inside : ∀ c ∈ x, p c = true := by
    intro c member
    rw [← taken] at member
    exact List.mem_takeWhile_imp member
  have closed := Text.dropWhile_closed p (x ++ v)
  rw [dropped, ← seen.head] at closed
  exact Text.run_append inside closed

theorem digitSpan_seen {x v w : Text} (seen : Seen v w) (split : digitSpan (x ++ v) = (x, v)) :
    digitSpan (x ++ w) = (x, w) := by
  obtain ⟨taken, dropped⟩ := Prod.mk.inj split
  obtain ⟨first, rest⟩ := run_seen seen taken dropped
  rw [digitSpan, first, rest]

theorem signSpan_cons (c : Char) (rest : Text) :
    signSpan (c :: rest) = if c = '+' ∨ c = '-' then ([c], rest) else ([], c :: rest) := by
  by_cases plus : c = '+'
  · subst plus
    rfl
  · by_cases minus : c = '-'
    · subst minus
      rfl
    · simp [signSpan, plus, minus]

theorem signSpan_seen {x v w : Text} (seen : Seen v w) (split : signSpan (x ++ v) = (x, v)) :
    signSpan (x ++ w) = (x, w) := by
  cases x with
  | nil =>
    rcases seen.cases_head with ⟨rfl, rfl⟩ | ⟨c, v, w, rfl, rfl⟩
    · exact split
    · rw [List.nil_append, signSpan_cons] at split ⊢
      split at split
      · simp at split
      · rename_i unsigned
        rw [if_neg unsigned]
  | cons c x =>
    rw [List.cons_append, signSpan_cons] at split ⊢
    split at split
    · rename_i sign
      obtain rfl : x = [] := (List.cons.inj (Prod.mk.inj split).1).2.symm
      rw [if_pos sign]
      rfl
    · simp at split

theorem fractionSpan_seen {x v w : Text} (seen : Seen v w)
    (split : fractionSpan (x ++ v) = (x, v)) : fractionSpan (x ++ w) = (x, w) := by
  cases x with
  | nil =>
    rcases seen.cases_head with ⟨rfl, rfl⟩ | ⟨c, v, w, rfl, rfl⟩
    · exact split
    · by_cases point : c = '.'
      · subst point
        have digit : startsDigit w = startsDigit v := seen.digit rfl
        simp only [List.nil_append, fractionSpan, digit] at split ⊢
        split at split
        · exact (Span.cons_ne split).elim
        · rename_i missed
          rw [if_neg missed]
      · simp [fractionSpan, point]
  | cons c x =>
    by_cases point : c = '.'
    · subst point
      simp only [List.cons_append, fractionSpan, (seen.append x).startsDigit] at split ⊢
      split at split
      · rename_i digit
        rw [if_pos digit]
        exact Span.cons_eq.mpr ⟨rfl, digitSpan_seen seen (Span.cons_eq.mp split).2⟩
      · simp at split
    · simp [fractionSpan, point] at split

theorem Seen.startsDigit_signed {v w : Text} (seen : Seen v w) :
    Css.startsDigit (signSpan w).2 = Css.startsDigit (signSpan v).2 := by
  rcases seen.cases_head with ⟨rfl, rfl⟩ | ⟨c, v, w, rfl, rfl⟩
  · rfl
  · rw [signSpan_cons, signSpan_cons]
    split
    · rename_i sign
      refine seen.digit ?_
      rcases sign with rfl | rfl
      · rfl
      · rfl
    · exact seen.startsDigit

theorem unitSpan_cons (c : Char) (rest : Text) : unitSpan (c :: rest) =
    if c = '%' then ([c], rest)
    else if startsName (c :: rest) then nameSpan .outside (c :: rest) else ([], c :: rest) := by
  by_cases percent : c = '%'
  · subst percent
    rfl
  · simp [unitSpan, percent]

theorem unitSpan_seen {x v w : Text} (seen : Seen v w) (split : unitSpan (x ++ v) = (x, v)) :
    unitSpan (x ++ w) = (x, w) := by
  cases x with
  | nil =>
    rcases seen.cases_head with ⟨rfl, rfl⟩ | ⟨c, v, w, rfl, rfl⟩
    · exact split
    · rw [List.nil_append, unitSpan_cons] at split ⊢
      split at split
      · simp at split
      · rename_i percent
        split at split
        · rename_i starts
          exact absurd (congrArg Prod.fst split) (nameSpan_ne_nil starts)
        · rename_i unnamed
          rw [if_neg percent, seen.name, if_neg unnamed]
  | cons c x =>
    rw [List.cons_append, unitSpan_cons] at split ⊢
    split at split
    · rename_i percent
      obtain rfl : x = [] := (List.cons.inj (Prod.mk.inj split).1).2.symm
      rw [if_pos percent]
      rfl
    · rename_i percent
      rw [if_neg percent, (seen.append x).startsName_cons]
      split at split
      · rename_i starts
        rw [if_pos starts]
        exact nameSpan_seen (x := c :: x) seen split
      · simp at split

theorem exponentSpan_cons (c : Char) (rest : Text) : exponentSpan (c :: rest) =
    if (c = 'e' || c = 'E') && startsDigit (signSpan rest).2 then
      (c :: (signSpan rest).1 ++ (digitSpan (signSpan rest).2).1, (digitSpan (signSpan rest).2).2)
    else ([], c :: rest) := rfl

/-- The unit of the number is part of what decides whether there is an exponent. -/
theorem exponentSpan_seen {x unit v w : Text} (seen : Seen v w)
    (split : exponentSpan (x ++ (unit ++ v)) = (x, unit ++ v))
    (last : unitSpan (unit ++ v) = (unit, v)) :
    exponentSpan (x ++ (unit ++ w)) = (x, unit ++ w) := by
  cases x with
  | nil =>
    rw [List.nil_append] at split ⊢
    cases unit with
    | nil =>
      rcases seen.cases_head with ⟨rfl, rfl⟩ | ⟨c, v, w, rfl, rfl⟩
      · exact split
      · have other : (c = 'e' || c = 'E') = false := by
          rw [← Bool.not_eq_true]
          intro mark
          rw [Bool.or_eq_true, decide_eq_true_eq, decide_eq_true_eq] at mark
          have starts : startsName (c :: v) = true ∧ c ≠ '%' := by
            rcases mark with rfl | rfl
            · exact ⟨rfl, by decide⟩
            · exact ⟨rfl, by decide⟩
          rw [List.nil_append, unitSpan_cons, if_neg starts.2, if_pos starts.1] at last
          exact nameSpan_ne_nil starts.1 (congrArg Prod.fst last)
        rw [List.nil_append, exponentSpan_cons, other]
        rfl
    | cons c unit =>
      rw [List.cons_append, exponentSpan_cons] at split ⊢
      rw [(seen.append unit).startsDigit_signed]
      split at split
      · simp at split
      · rename_i missed
        rw [if_neg missed]
  | cons c x =>
    rw [List.cons_append, exponentSpan_cons] at split ⊢
    split at split
    · rename_i marks
      obtain ⟨inside, rest⟩ := Prod.mk.inj split
      have parts : Span.chain signSpan digitSpan (x ++ (unit ++ v)) = (x, unit ++ v) :=
        Prod.ext (List.cons.inj inside).2 rest
      obtain ⟨sign, run, rfl, one, two⟩ :=
        Span.chain_eq signSpan_covers digitSpan_covers parts
      have first := signSpan_seen ((seen.append unit).append run) one
      have second := digitSpan_seen (seen.append unit) two
      simp only [List.append_assoc] at marks ⊢
      rw [one, ← ((seen.append unit).append run).startsDigit] at marks
      simp only [first, marks, second, if_true, List.cons_append]
    · simp at split

theorem numberSpan_seen {x v w : Text} (seen : Seen v w) (split : numberSpan (x ++ v) = (x, v)) :
    numberSpan (x ++ w) = (x, w) := by
  have signed := Span.chain_covers signSpan_covers digitSpan_covers
  have decimal := Span.chain_covers signed fractionSpan_covers
  have scaled := Span.chain_covers decimal exponentSpan_covers
  obtain ⟨_, unit, rfl, split, five⟩ := Span.chain_eq scaled unitSpan_covers split
  obtain ⟨_, exponent, rfl, split, four⟩ := Span.chain_eq decimal exponentSpan_covers split
  obtain ⟨_, fraction, rfl, split, three⟩ := Span.chain_eq signed fractionSpan_covers split
  obtain ⟨sign, whole, rfl, one, two⟩ := Span.chain_eq signSpan_covers digitSpan_covers split
  have behind := seen.append unit
  replace one := signSpan_seen (((behind.append exponent).append fraction).append whole) one
  replace two := digitSpan_seen ((behind.append exponent).append fraction) two
  replace three := fractionSpan_seen (behind.append exponent) three
  replace four := exponentSpan_seen seen four five
  replace five := unitSpan_seen seen five
  simp only [List.append_assoc, numberSpan, one, two, three, four, five]

theorem Seen.startsNumber {v w : Text} (seen : Seen v w) (c : Char) :
    startsNumber (c :: w) = startsNumber (c :: v) := by
  have point : (decide (w.head? = some '.') && Css.startsDigit w.tail) =
      (decide (v.head? = some '.') && Css.startsDigit v.tail) := by
    rw [seen.head]
    by_cases point : v.head? = some '.'
    · rw [seen.digit (by simp [point])]
    · simp [point]
  simp only [Css.startsNumber, signSpan_cons]
  by_cases sign : c = '+' ∨ c = '-'
  · simp only [if_pos sign, seen.startsDigit, point]
  · simp only [if_neg sign, List.head?_cons, List.tail_cons, seen.startsDigit]
    rfl

namespace Token

theorem ofSpan_eq {kind other : Kind} {c : Char} {span : Span} {x v : Text}
    (read : ofSpan other (Span.cons c span) = (⟨kind, c :: x⟩, v)) :
    other = kind ∧ span = (x, v) := by
  obtain ⟨same, rest⟩ := Prod.mk.inj read
  obtain ⟨rfl, inside⟩ := Token.mk.inj same
  exact ⟨rfl, Prod.ext (List.cons.inj inside).2 rest⟩

theorem single_eq {kind other : Kind} {c : Char} {rest x v : Text}
    (read : single other c rest = (⟨kind, c :: x⟩, v)) : other = kind ∧ x = [] := by
  obtain ⟨same, _⟩ := Prod.mk.inj read
  obtain ⟨rfl, inside⟩ := Token.mk.inj same
  exact ⟨rfl, (List.cons.inj inside).2.symm⟩

theorem named_seen {t : Token} {v w : Text} (seen : Seen v w)
    (found : named (t.text ++ v) = (t, v)) : named (t.text ++ w) = (t, w) := by
  by_cases more : v = []
  · subst more
    rcases seen.cases_head with ⟨_, rfl⟩ | ⟨_, _, _, impossible, _⟩
    · exact found
    · contradiction
  · have covers := nameSpan_covers .outside (t.text ++ v)
    generalize known : nameSpan .outside (t.text ++ v) = name at covers
    obtain ⟨raw, rest⟩ := name
    replace covers : raw ++ rest = t.text ++ v := covers
    rw [← covers] at known
    rw [← covers, named, known] at found
    dsimp only at found
    split at found
    · rename_i inner
      split at found
      · rename_i kind span address
        obtain ⟨rfl, rfl⟩ := Prod.mk.inj found
        obtain ⟨isUrl, address⟩ := Option.ite_none_right_eq_some.mp address
        have inside : span.1 ++ span.2 = inner := urlSpan?_covers address
        subst inside
        have again := nameSpan_seen ((seen.append span.1).cons '(') known
        have closed := urlSpan?_closed address more w
        simp only [List.append_assoc, List.cons_append, named, again, if_pos isUrl, closed]
      · rename_i missed
        obtain ⟨rfl, rfl⟩ := Prod.mk.inj found
        have again := nameSpan_seen (seen.cons '(') known
        simp only [List.append_assoc, List.cons_append, List.nil_append, named, again]
        split
        · rename_i address
          obtain ⟨isUrl, address⟩ := Option.ite_none_right_eq_some.mp address
          rw [if_pos isUrl, urlSpan?_eq_none] at missed
          rw [urlSpan?_eq_none.mpr (seen.quoted missed)] at address
          contradiction
        · rfl
    · rename_i other
      obtain ⟨rfl, rfl⟩ := Prod.mk.inj found
      have again := nameSpan_seen seen known
      simp only [named, again]
      split
      · rename_i inner
        rcases seen.cases_head with ⟨_, empty⟩ | ⟨c, v, w, rfl, spelled⟩
        · contradiction
        · obtain ⟨rfl, _⟩ := List.cons.inj spelled
          exact (other v rfl).elim
      · rfl

theorem nameSpan_prefix (text : Text) : (nameSpan .outside text).1 <+: (named text).1.text := by
  unfold named
  dsimp only
  split
  · split
    · exact List.prefix_append _ _
    · exact List.prefix_append _ _
  · exact List.prefix_rfl

theorem closer_seen {c : Char} {x v w : Text} (seen : Seen v w)
    (name : (nameSpan .outside (c :: (x ++ v))).1 <+: c :: x)
    (other : Text.startsWith "-->" (c :: (x ++ v)) = false) :
    Text.startsWith "-->" (c :: (x ++ w)) = false := by
  rw [← Bool.not_eq_true]
  intro closer
  obtain ⟨rest, after⟩ := Option.isSome_iff_exists.mp closer
  have whole : c :: (x ++ w) = '-' :: '-' :: '>' :: rest := Text.after?_eq_some.mp after
  obtain ⟨rfl, spelled⟩ := List.cons.inj whole
  cases x with
  | nil =>
    have first := seen.head
    rw [List.nil_append] at spelled
    rw [spelled] at first
    obtain ⟨v, rfl⟩ := List.head?_eq_some_iff.mp first.symm
    have two : ['-', '-'] <+: (nameSpan .outside ('-' :: ([] ++ '-' :: v))).1 :=
      ⟨(nameSpan .outside v).1, rfl⟩
    exact absurd (two.trans name).length_le (by decide)
  | cons d x =>
    rw [List.cons_append] at spelled
    obtain ⟨rfl, later⟩ := List.cons.inj spelled
    have first := (seen.append x).head
    rw [later] at first
    obtain ⟨more, same⟩ := List.head?_eq_some_iff.mp first.symm
    rw [List.cons_append, same] at other
    exact Bool.false_ne_true (other.symm.trans rfl)

theorem delimiter_seen {c : Char} {v w : Text} (seen : Seen v w)
    (name : startsName (c :: w) = false) (comment : Text.after? "/*" (c :: v) = none)
    (opener : Text.after? "<!--" (c :: v) = none) :
    Text.after? "/*" (c :: w) = none ∧ Text.after? "<!--" (c :: w) = none ∧
      Text.after? "-->" (c :: w) = none := by
  rw [Text.after?_eq_none] at comment opener
  simp only [Text.after?_eq_none]
  refine ⟨fun starts => ?_, fun starts => ?_, fun starts => ?_⟩
  · obtain ⟨slash, star⟩ := List.cons_prefix_cons.mp starts
    obtain ⟨rest, rfl⟩ := star
    obtain ⟨v, rfl⟩ := List.head?_eq_some_iff.mp seen.head.symm
    exact comment (List.cons_prefix_cons.mpr ⟨slash, v, rfl⟩)
  · obtain ⟨angle, dashes⟩ := List.cons_prefix_cons.mp starts
    exact opener (List.cons_prefix_cons.mpr ⟨angle, seen.opener dashes⟩)
  · obtain ⟨rest, spelled⟩ := starts
    replace spelled : '-' :: '-' :: '>' :: rest = c :: w := spelled
    obtain ⟨rfl, rfl⟩ := List.cons.inj spelled
    exact Bool.false_ne_true (name.symm.trans rfl)

theorem next?_closer {c : Char} {kind : Kind} {x v : Text}
    (closer : Text.startsWith "-->" (c :: (x ++ v)) = true)
    (found : next? (c :: (x ++ v)) = some (⟨kind, c :: x⟩, v)) (w : Text) :
    next? (c :: (x ++ w)) = some (⟨kind, c :: x⟩, w) := by
  obtain ⟨rest, after⟩ := Option.isSome_iff_exists.mp closer
  rw [Text.after?_eq_some.mp after] at found
  have read : next? ("-->".toList ++ rest) = some (⟨.commentCloser, "-->".toList⟩, rest) := rfl
  rw [read, Option.some.injEq] at found
  obtain ⟨same, _⟩ := Prod.mk.inj found
  obtain ⟨rfl, spelled⟩ := Token.mk.inj same
  obtain ⟨rfl, rfl⟩ := List.cons.inj spelled
  rfl

/-- What is read where no space, string, number or name begins. -/
def readSign (c : Char) (rest : Text) : Token × Text :=
  match punctuation? c with
  | some kind => single kind c rest
  | none => match Text.after? "/*" (c :: rest), Text.after? "<!--" (c :: rest),
        Text.after? "-->" (c :: rest) with
    | some inner, _, _ =>
      let (body, left) := commentSpan inner
      (⟨.comment, '/' :: '*' :: body⟩, left)
    | _, some left, _ => (⟨.commentOpener, "<!--"⟩, left)
    | _, _, some left => (⟨.commentCloser, "-->"⟩, left)
    | none, none, none => single .delimiter c rest

theorem readSign_seen {kind : Kind} {c : Char} {x v w : Text} (seen : Seen v w) (more : v ≠ [])
    (closer : Text.startsWith "-->" (c :: (x ++ v)) = false)
    (name : startsName (c :: (x ++ w)) = false)
    (found : readSign c (x ++ v) = (⟨kind, c :: x⟩, v)) :
    readSign c (x ++ w) = (⟨kind, c :: x⟩, w) := by
  unfold readSign at found ⊢
  split at found
  · obtain ⟨rfl, rfl⟩ := single_eq found
    rfl
  · split at found
    · rename_i inner opened
      have whole : c :: (x ++ v) = '/' :: '*' :: inner := Text.after?_eq_some.mp opened
      obtain ⟨same, rest⟩ := Prod.mk.inj found
      obtain ⟨rfl, inside⟩ := Token.mk.inj same
      obtain ⟨rfl, rfl⟩ := List.cons.inj inside
      have body : (commentSpan inner).1 ++ v = inner := by simpa using whole
      have split : commentSpan ((commentSpan inner).1 ++ v) = ((commentSpan inner).1, v) := by
        rw [body]
        exact Prod.ext rfl rest
      have again : Text.after? "/*" ('/' :: ('*' :: (commentSpan inner).1 ++ w)) =
        some ((commentSpan inner).1 ++ w) := Text.after?_append _ _
      simp only [again, commentSpan_closed split more w]
    · obtain ⟨same, rest⟩ := Prod.mk.inj found
      obtain ⟨rfl, inside⟩ := Token.mk.inj same
      replace inside : '<' :: '!' :: '-' :: '-' :: [] = c :: x := inside
      obtain ⟨rfl, rfl⟩ := List.cons.inj inside
      rfl
    · rename_i closed _ _
      rw [Text.startsWith, closed] at closer
      contradiction
    · rename_i comment opener _
      obtain ⟨rfl, rfl⟩ := single_eq found
      obtain ⟨first, second, third⟩ := delimiter_seen seen name comment opener
      simp only [List.nil_append, first, second, third]
      rfl

theorem next?_seen {t : Token} {v w : Text} (seen : Seen v w)
    (found : next? (t.text ++ v) = some (t, v)) : next? (t.text ++ w) = some (t, w) := by
  obtain ⟨kind, text⟩ := t
  obtain ⟨c, x, rfl⟩ := List.exists_cons_of_ne_nil (next?_covers found).1
  by_cases more : v = []
  · subst more
    rcases seen.cases_head with ⟨_, rfl⟩ | ⟨_, _, _, impossible, _⟩
    · exact found
    · contradiction
  cases closer : Text.startsWith "-->" (c :: (x ++ v)) with
  | true => exact next?_closer closer found w
  | false => ?_
  -- The tests by which the kind of a token is told come out the same in front of `w`.
  have behind := seen.append x
  have name := behind.name
  have part : ((x ++ w).head?.any isNamePart) = (x ++ v).head?.any isNamePart := by rw [behind.head]
  have number := behind.startsNumber c
  have named := behind.startsName_cons c
  simp only [List.cons_append] at found ⊢
  replace found := Option.some.inj found
  refine congrArg some ?_
  split at found
  · rename_i space
    rw [if_pos space]
    rw [List.takeWhile_cons_of_pos space] at found ⊢
    have spaces : ofSpan .space (Span.cons c ((x ++ v).takeWhile isSpace,
        (x ++ v).dropWhile isSpace)) = (⟨kind, c :: x⟩, v) := found
    obtain ⟨rfl, run⟩ := ofSpan_eq spaces
    obtain ⟨taken, dropped⟩ := Prod.mk.inj run
    obtain ⟨again, rest⟩ := run_seen seen taken dropped
    rw [again, rest]
    rfl
  · rename_i solid
    rw [if_neg solid]
    split at found
    · rename_i quote
      rw [if_pos quote]
      obtain ⟨rfl, span⟩ := ofSpan_eq found
      rw [stringSpan_seen seen (Prod.ext rfl span)]
      rfl
    · rename_i unquoted
      rw [if_neg unquoted, name, part]
      split at found
      · rename_i hash
        rw [if_pos hash]
        obtain ⟨rfl, span⟩ := ofSpan_eq found
        rw [nameSpan_seen seen span]
        rfl
      · rename_i unhashed
        rw [if_neg unhashed]
        split at found
        · rename_i keyword
          rw [if_pos keyword]
          obtain ⟨rfl, span⟩ := ofSpan_eq found
          rw [nameSpan_seen seen span, span]
          rfl
        · rename_i unkeyed
          rw [if_neg unkeyed, number]
          split at found
          · rename_i starts
            rw [if_pos starts]
            obtain ⟨same, rest⟩ := Prod.mk.inj found
            obtain ⟨rfl, inside⟩ := Token.mk.inj same
            have known : numberSpan (c :: x ++ v) = (c :: x, v) := Prod.ext inside rest
            have again := numberSpan_seen seen known
            rw [List.cons_append] at again
            rw [again]
            rfl
          · rename_i uncounted
            rw [if_neg uncounted, named]
            cases starts : startsName (c :: (x ++ v)) with
            | true =>
              rw [starts, closer, if_pos (by decide)] at found
              have read : Token.named (c :: x ++ v) = (⟨kind, c :: x⟩, v) := found
              have name := nameSpan_prefix (c :: x ++ v)
              rw [read] at name
              rw [closer_seen seen name closer, if_pos (by decide)]
              exact named_seen (t := ⟨kind, c :: x⟩) seen read
            | false =>
              rw [starts, Bool.false_and, if_neg Bool.false_ne_true] at found
              rw [Bool.false_and, if_neg Bool.false_ne_true]
              exact readSign_seen seen more closer (named.trans starts) found

end Token
end ColorTheme.Css
