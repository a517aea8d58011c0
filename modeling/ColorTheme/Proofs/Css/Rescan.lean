import ColorTheme.Proofs.Css.Comment

/-!
Orderly tokens read again. What is kept of a part of a sheet is its text without comments and
without blanks at its ends; in the place where it is written this text is read as the same part. -/
namespace ColorTheme.Css

namespace Token

/-- The tokens that are neither space nor comments. -/
def marks (ts : List Token) : List Token := ts.filter fun t => !t.isBlank

theorem isBlank_eq_false {t : Token} :
    t.isBlank = false ↔ t.kind ≠ .space ∧ t.isComment = false := by simp [isBlank, isComment]

theorem marks_cons_blank {t : Token} (blank : t.isBlank = true) (ts : List Token) :
    marks (t :: ts) = marks ts := by simp [marks, blank]

theorem marks_cons_other {t : Token} (other : t.isBlank = false) (ts : List Token) :
    marks (t :: ts) = t :: marks ts := by simp [marks, other]

theorem next?_punctuation {c : Char} {kind : Kind} (sign : punctuation? c = some kind)
    (rest : Text) : next? (c :: rest) = some (⟨kind, [c]⟩, rest) := by
  unfold punctuation? at sign
  split at sign
  case h_9 => contradiction
  all_goals
    cases sign
    rfl

theorem calm_of_punctuation {c : Char} {kind : Kind} (sign : punctuation? c = some kind) :
    ".+-!\\".toList.contains c = false ∧ isSpace c = false := by
  unfold punctuation? at sign
  split at sign
  case h_9 => contradiction
  all_goals decide

/-- Space in front of a text makes one token more, or makes its first token longer. -/
theorem scan_blank {run text : Text} {ts more : List Token} (filled : run ≠ [])
    (spaces : ∀ c ∈ run, isSpace c = true) (nonempty : ts ≠ []) (scanned : scan text = ts ++ more) :
    ∃ longer, scan (run ++ text) = longer ++ more ∧ longer ≠ [] ∧ marks longer = marks ts := by
  cases starts : text.head?.any isSpace with
  | false =>
    refine ⟨⟨.space, run⟩ :: ts, ?_, List.cons_ne_nil _ _, marks_cons_blank rfl ts⟩
    rw [scan_space filled spaces starts, scanned]
    rfl
  | true =>
    have whole : text.takeWhile isSpace ++ text.dropWhile isSpace = text :=
      List.takeWhile_append_dropWhile
    have closed := Text.dropWhile_closed isSpace text
    have inside : ∀ c ∈ text.takeWhile isSpace, isSpace c = true :=
      fun _ => List.mem_takeWhile_imp
    have first : text.takeWhile isSpace ≠ [] := by
      cases text with
      | nil => contradiction
      | cons c rest =>
        have space : isSpace c = true := starts
        rw [List.takeWhile_cons_of_pos space]
        exact List.cons_ne_nil _ _
    have short := scan_space first inside closed
    have long := scan_space (List.append_ne_nil_of_left_ne_nil filled _)
      (List.forall_mem_append.mpr ⟨spaces, inside⟩) closed
    rw [whole, scanned] at short
    rw [List.append_assoc, whole] at long
    obtain ⟨t, ts, rfl⟩ := List.exists_cons_of_ne_nil nonempty
    obtain ⟨rfl, later⟩ := List.cons.inj short
    refine ⟨⟨.space, run ++ text.takeWhile isSpace⟩ :: ts, ?_, List.cons_ne_nil _ _, ?_⟩
    · rw [long, ← later]
      rfl
    · rw [marks_cons_blank rfl, marks_cons_blank rfl]

theorem startsQuoted_append {run : Text} (spaces : ∀ c ∈ run, isSpace c = true) (text : Text) :
    startsQuoted (run ++ text) = startsQuoted text := by
  rw [startsQuoted, List.dropWhile_append_of_pos spaces]
  rfl

theorem isBlank_of_isSpace {c : Char} (space : isSpace c = true) : Text.isBlank c = true := by
  simp only [isSpace, isNewline, Bool.or_eq_true, decide_eq_true_eq] at space
  rcases space with (rfl | rfl) | (rfl | rfl) | rfl
  · decide
  · decide
  · decide
  · decide
  · decide

theorem next?_of_mem {text : Text} {ts more : List Token} (scanned : scan text = ts ++ more) :
    ∀ t ∈ ts, ∃ rest, next? (t.text ++ rest) = some (t, rest) := by
  induction ts generalizing text with
  | nil => nofun
  | cons t ts ih =>
    rw [List.cons_append] at scanned
    obtain ⟨found, later⟩ := scan_eq_cons scanned
    have whole := (next?_covers found).2
    exact List.forall_mem_cons.mpr ⟨⟨_, by rw [whole]; exact found⟩, ih later⟩

theorem calm_of_break {c : Char} (stop : c ∈ breaks) : ".+-!\\".toList.contains c = false := by
  have all : (breaks.all fun c => !".+-!\\".toList.contains c) = true := by decide
  simpa using List.all_eq_true.mp all c stop

theorem halts_of_break {c : Char} (stop : c ∈ breaks) (rest : Text) : Halts (c :: rest) := by
  have all : (breaks.all fun c => !(isNamePart c || c = '\\')) = true := by decide
  simpa [Halts] using List.all_eq_true.mp all c stop

theorem mem_breaks_of_isSpace {c : Char} (space : isSpace c = true) : c ∈ breaks := by
  simp only [isSpace, isNewline, Bool.or_eq_true, decide_eq_true_eq] at space
  rcases space with (rfl | rfl) | (rfl | rfl) | rfl
  · decide
  · decide
  · decide
  · decide
  · decide

theorem Shape.isSpace {t : Token} {rest : Text} (shape : Shape t rest) (kind : t.kind = .space) :
    ∀ c ∈ t.text, isSpace c = true := by
  cases shape with
  | word word =>
    rw [kind] at word
    contradiction
  | space _ spaces => exact spaces
  | punctuation c sign =>
    rw [kind] at sign
    exact absurd (punctuation?_isPunctuation sign) (by decide)
  | comment comment =>
    rw [kind] at comment
    contradiction

theorem loose_starts {t : Token} {rest : Text} (loose : t.isLoose = true) (shape : Shape t rest)
    (filled : t.text ≠ []) : ∃ c x, t.text = c :: x ∧ c ∈ breaks := by
  simp only [isLoose, isSemicolon, opensBlock, closesBlock, Bool.or_eq_true, decide_eq_true_eq]
    at loose
  cases shape with
  | word word =>
    rcases loose with ((kind | kind) | kind) | kind
    all_goals
      rw [kind] at word
      contradiction
  | space kind spaces =>
    obtain ⟨c, x, text⟩ := List.exists_cons_of_ne_nil filled
    exact ⟨c, x, text, mem_breaks_of_isSpace (spaces c (by simp [text]))⟩
  | punctuation c sign text =>
    refine ⟨c, [], text, ?_⟩
    unfold punctuation? at sign
    rcases loose with ((kind | kind) | kind) | kind
    all_goals
      rw [kind] at sign
      split at sign
      all_goals first | decide | simp at sign
  | comment kind => simp [kind] at loose

/-- A firm token is read in front of every text that begins like a loose one. -/
theorem Firm.next? {t : Token} (firm : t.Firm) (plain : t.isFunction = false) {c : Char}
    (stop : c ∈ breaks) (rest : Text) : Token.next? (t.text ++ c :: rest) = some (t, c :: rest) :=
  next?_seen (Seen.stop (calm_of_break stop) rest) (firm.read plain c stop)

theorem Firm.isSpace {t : Token} (firm : t.Firm) {c : Char} {x : Text} (text : t.text = c :: x) :
    isSpace c = false := by
  have first := (Text.trim_eq_iff.mp firm.trimmed).1
  rw [← Bool.not_eq_true]
  intro space
  rw [text, List.head?_cons, Option.any_some, isBlank_of_isSpace space] at first
  contradiction

theorem Firm.seen {t : Token} (firm : t.Firm) (plain : t.isFunction = false) (filled : t.text ≠ [])
    {v w : Text} (one : Halts v) (two : Halts w) : Seen (t.text ++ v) (t.text ++ w) := by
  obtain ⟨c, x, text⟩ := List.exists_cons_of_ne_nil filled
  rw [text]
  refine Seen.behind (firm.isSpace text) (fun escape => ?_) one two
  have read := firm.read plain ';' (by decide)
  rw [text, escape] at read
  have other : Token.next? ['\\', ';'] = some (⟨.ident [';'], ['\\', ';']⟩, []) := by decide
  rw [List.singleton_append, other] at read
  simp at read

/-- Tokens `ts` that stood in front of a text, together `v`, are read as `js` in `w`, up to the
tokens `more`. -/
structure Again (ts js more : List Token) (v w : Text) : Prop where
  scanned : scan w = js ++ more
  marks : marks js = marks ts
  seen : ∀ t ∈ ts.head?, t.isComment = false → Seen v w
  head : ∀ t ∈ ts.head?, t.isBlank = false → js.head? = some t

namespace Again

variable {ts js more : List Token} {t : Token} {v w : Text}

theorem comment (again : Again ts js more v w) (comment : t.isComment = true) (v' : Text) :
    Again (t :: ts) js more v' w where
  scanned := again.scanned
  marks := by
    rw [marks_cons_blank (by simp [isBlank, isComment_iff.mp comment]), again.marks]
  seen s member other := by
    obtain rfl : t = s := by simpa using member
    exact absurd comment (by simp [other])
  head s member other := by
    obtain rfl : t = s := by simpa using member
    simp [isBlank, isComment_iff.mp comment] at other

theorem space (again : Again ts js more v w) (kind : t.kind = .space)
    (spaces : ∀ c ∈ t.text, isSpace c = true) (filled : t.text ≠ []) (marked : Token.marks ts ≠ [])
    (quoted : startsQuoted v = true → startsQuoted w = true) :
    ∃ longer, Again (t :: ts) longer more (t.text ++ v) (t.text ++ w) := by
  have blank : t.isBlank = true := by simp [isBlank, kind]
  have read : js ≠ [] := by
    rintro rfl
    exact marked again.marks.symm
  obtain ⟨longer, scanned, _, marks⟩ := scan_blank filled spaces read again.scanned
  refine ⟨longer, scanned, ?_, fun _ _ _ => ?_, fun s member other => ?_⟩
  · rw [marks, marks_cons_blank blank, again.marks]
  · obtain ⟨c, x, text⟩ := List.exists_cons_of_ne_nil filled
    have first : c ∈ breaks := mem_breaks_of_isSpace (spaces c (by simp [text]))
    have further := quoted
    rw [← startsQuoted_append spaces, ← startsQuoted_append spaces w, text] at further
    rw [text]
    exact Seen.of_calm (calm_of_break first) further
  · obtain rfl : t = s := by simpa using member
    simp [blank] at other

theorem other (again : Again ts js more v w) (other : t.isBlank = false)
    (found : next? (t.text ++ w) = some (t, w)) (seen : Seen (t.text ++ v) (t.text ++ w)) :
    Again (t :: ts) (t :: js) more (t.text ++ v) (t.text ++ w) where
  scanned := by
    rw [scan_cons found, again.scanned]
    rfl
  marks := by rw [marks_cons_other other, marks_cons_other other, again.marks]
  seen _ _ _ := seen
  head _ member _ := member

end Again

theorem marks_ne_nil {ts : List Token} (filled : ts ≠ [])
    (last : ∀ t ∈ ts.getLast?, t.isBlank = false ∧ t.isFunction = false) :
    marks ts ≠ [] ∧ bare ts ≠ [] := by
  have known := List.getLast?_eq_some_getLast filled
  have member := List.getLast_mem filled
  have solid := (last _ known).1
  have other := (isBlank_eq_false.mp solid).2
  exact ⟨List.ne_nil_of_mem (List.mem_filter.mpr ⟨member, by simp [solid]⟩),
    List.ne_nil_of_mem (List.mem_filter.mpr ⟨member, by simp [other]⟩)⟩

theorem next?_parted {t s : Token} {ts : List Token} {v : Text} (orderly : Orderly (t :: s :: ts))
    (found : next? (t.text ++ v) = some (t, v)) (solid : t.isBlank = false)
    (comment : s.isComment = true) (slash : v.head? = some '/') (filled : bare (s :: ts) ≠ [])
    (read : ∀ r ∈ s :: ts, ∃ rest, next? (r.text ++ rest) = some (r, rest)) (tail : Text) :
    next? (t.text ++ (source (bare (s :: ts)) ++ tail)) =
        some (t, source (bare (s :: ts)) ++ tail) ∧
      Seen (t.text ++ v) (t.text ++ (source (bare (s :: ts)) ++ tail)) := by
  have firm := orderly.firm t List.mem_cons_self (isBlank_eq_false.mp solid).1
  have parted := orderly.parted
  simp only [Token.parted, List.head?_cons, Option.any_some, comment, solid, Bool.not_true,
    Bool.false_or, Bool.and_eq_true, Bool.or_eq_true, Bool.not_eq_true'] at parted
  obtain ⟨sign | ⟨plain, loose⟩, _⟩ := parted
  · cases next?_shape found with
    | word word => simp [Kind.isWord, sign] at word
    | space kind => exact absurd kind (isBlank_eq_false.mp solid).1
    | punctuation d sign text =>
      obtain ⟨calm, space⟩ := calm_of_punctuation sign
      obtain ⟨kind, text'⟩ := t
      obtain rfl : text' = [d] := text
      exact ⟨next?_punctuation sign _, Seen.of_calm calm fun start => by
        simpa [startsQuoted, space] using start⟩
    | comment kind =>
      rw [kind] at sign
      contradiction
  · obtain ⟨r, more, known⟩ := List.exists_cons_of_ne_nil filled
    rw [known, List.head?_cons, Option.all_some] at loose
    have member : r ∈ s :: ts := (List.mem_filter.mp (known ▸ List.mem_cons_self)).1
    obtain ⟨rest, again⟩ := read r member
    obtain ⟨c, x, text, stop⟩ := loose_starts loose (next?_shape again) (next?_covers again).1
    have spelled : source (bare (s :: ts)) ++ tail = c :: (x ++ source more ++ tail) := by
      rw [known, source_cons, text]
      rfl
    have halts : Halts v := by
      unfold Halts
      rw [slash]
      rfl
    rw [spelled]
    exact ⟨firm.next? plain stop _,
      firm.seen plain (next?_covers found).1 halts (halts_of_break stop _)⟩

/-- The tokens are read again without the comments among them, in front of what may stand behind
the last one. Only neighbouring white space is put together. -/
theorem scan_bare {ts : List Token} {u : Text} {c : Char} (orderly : Orderly ts)
    (scanned : scan (source ts ++ u) = ts ++ scan u)
    (last : ∀ t ∈ ts.getLast?, t.isBlank = false ∧ t.isFunction = false) (halts : Halts u)
    (stop : c ∈ breaks) (tail : Text) : ∃ js,
      Again ts js (scan (c :: tail)) (source ts ++ u) (source (bare ts) ++ c :: tail) := by
  induction ts with
  | nil => exact ⟨[], rfl, rfl, nofun, nofun⟩
  | cons t ts ih =>
    rw [List.cons_append] at scanned
    obtain ⟨found, later⟩ := scan_eq_cons scanned
    rw [source_append, source_scan] at found later
    obtain ⟨filled, whole⟩ := next?_covers found
    rw [← whole] at found
    rw [source_cons, List.append_assoc]
    cases ts with
    | nil =>
      obtain ⟨solid, plain⟩ := last t rfl
      obtain ⟨space, other⟩ := isBlank_eq_false.mp solid
      have firm := orderly.firm t List.mem_cons_self space
      have empty : Again [] [] (scan (c :: tail)) u (c :: tail) := ⟨rfl, rfl, nofun, nofun⟩
      rw [bare_cons_other other, source_cons, List.append_assoc]
      exact ⟨_, empty.other solid (firm.next? plain stop tail)
        (firm.seen plain filled halts (halts_of_break stop tail))⟩
    | cons s ts =>
      replace last : ∀ t ∈ (s :: ts).getLast?, t.isBlank = false ∧ t.isFunction = false := by
        simpa using last
      obtain ⟨marked, nonempty⟩ := marks_ne_nil (List.cons_ne_nil s ts) last
      obtain ⟨js, again⟩ := ih orderly.tail later last
      cases comment : t.isComment with
      | true =>
        rw [bare_cons_comment comment]
        exact ⟨js, again.comment comment _⟩
      | false =>
        rw [bare_cons_other comment, source_cons t, List.append_assoc]
        -- A comment is what makes the tokens read on another text than before.
        have slash : s.isComment = true → (source (s :: ts) ++ u).head? = some '/' := by
          intro next
          have firm := orderly.firm s (by simp) (by simp [isComment_iff.mp next])
          obtain ⟨body, text, _⟩ := firm.comment next
          rw [source_cons, text]
          rfl
        by_cases space : t.kind = .space
        · refine again.space space ((next?_shape found).isSpace space) filled marked fun start => ?_
          cases next : s.isComment with
          | false => exact (again.seen s rfl next).quoted start
          | true =>
            obtain ⟨rest, spelled⟩ := List.head?_eq_some_iff.mp (slash next)
            rw [spelled] at start
            contradiction
        · have solid := isBlank_eq_false.mpr ⟨space, comment⟩
          cases next : s.isComment with
          | false =>
            have seen := again.seen s rfl next
            exact ⟨_, again.other solid (next?_seen seen found) (seen.append t.text)⟩
          | true =>
            obtain ⟨read, seen⟩ := next?_parted orderly found solid next (slash next) nonempty
              (next?_of_mem later) _
            exact ⟨_, again.other solid read seen⟩

end Token
end ColorTheme.Css
