import ColorTheme.Text.Search

/-!
Searches met step by step. A search is known once it is known what a matcher does at one place:
a match is followed by the search in the text that it leaves over, and a character without a
match by the search behind it. -/
namespace ColorTheme.Text

/-- A matcher that covers at least one character and does not look at what stands before. -/
structure Matcher.Local (m : Matcher α) : Prop where
  blind : ∀ before other here, m before here = m other here
  covers : ∀ {before here value left}, m before here = some (value, left) →
    ∃ c used, here = c :: used ++ left

variable {m : Matcher α}

theorem Matcher.Local.nil (is : m.Local) {before : Option Char} :
    m before [] = none := by
  cases known : m before [] with
  | none => rfl
  | some hit =>
    obtain ⟨c, used, whole⟩ := is.covers known
    contradiction

theorem Matcher.Local.map (is : m.Local) (f : α → β) :
    Matcher.Local fun before here => (m before here).map fun (value, left) => (f value, left) where
  blind before other here := by rw [is.blind before other]
  covers found := by
    obtain ⟨⟨_, left⟩, known, same⟩ := Option.map_eq_some_iff.mp found
    cases same
    exact is.covers known

theorem pieces_blind (blind : ∀ before other here, m before here = m other here) (skip : Nat)
    (before other : Option Char) (text : Text) :
    pieces m skip before text = pieces m skip other text := by
  induction text generalizing skip before other with
  | nil => cases skip <;> rfl
  | cons c rest ih =>
    cases skip with
    | zero => simp only [pieces, blind before other]
    | succ skip => rfl

theorem pieces_skip (blind : ∀ before other here, m before here = m other here)
    (before : Option Char) (used left : Text) :
    pieces m used.length before (used ++ left) = pieces m 0 none left := by
  induction used generalizing before with
  | nil => exact pieces_blind blind 0 before none left
  | cons c used ih => exact ih (some c)

theorem pieces_match (is : m.Local) {here left : Text} {value : α}
    (found : m none here = some (value, left)) :
    pieces m 0 none here = .inr value :: pieces m 0 none left := by
  obtain ⟨c, used, rfl⟩ := is.covers found
  have width : (used ++ left).length - left.length = used.length := by simp
  simp only [List.cons_append] at found ⊢
  simp only [pieces, found, width, pieces_skip is.blind]

theorem pieces_char (is : m.Local) {c : Char} {rest : Text} (missed : m none (c :: rest) = none) :
    pieces m 0 none (c :: rest) = .inl c :: pieces m 0 none rest := by
  simp only [pieces, missed, pieces_blind is.blind 0 (some c) none]

theorem pieces_append (is : m.Local) {start rest : Text}
    (missed : ∀ here, here ≠ [] → here <:+ start → m none (here ++ rest) = none) :
    pieces m 0 none (start ++ rest) = start.map .inl ++ pieces m 0 none rest := by
  induction start with
  | nil => rfl
  | cons c start ih =>
    have first := missed (c :: start) (List.cons_ne_nil c start) List.suffix_rfl
    rw [List.cons_append] at first
    rw [List.cons_append, pieces_char is first, ih, List.map_cons, List.cons_append]
    exact fun here filled suffix => missed here filled (suffix.trans (List.suffix_cons c start))

/-- Induction along a search: over the matches and the characters that none of them covers. -/
theorem search_induction (is : m.Local) {P : Text → Prop} (nil : P [])
    (char : ∀ c rest, m none (c :: rest) = none → P rest → P (c :: rest))
    (found : ∀ here value left, m none here = some (value, left) → P left → P here)
    (text : Text) : P text := by
  -- A match leaves a shorter text, which need not be the tail.
  induction measured : text.length using Nat.strongRecOn generalizing text with
  | ind size ih =>
    cases text with
    | nil => exact nil
    | cons c rest =>
      cases known : m none (c :: rest) with
      | none => exact char c rest known (ih rest.length (by simp [← measured]) rest rfl)
      | some hit =>
        obtain ⟨value, left⟩ := hit
        obtain ⟨d, used, whole⟩ := is.covers known
        have shorter : left.length < size := by
          simp only [← measured, whole, List.length_append, List.length_cons]
          omega
        exact found _ value left known (ih left.length shorter left rfl)

/-- What follows a piece are the pieces of what the text goes on with. -/
theorem suffix_pieces (is : m.Local) {item : Char ⊕ α} {later : List (Char ⊕ α)} {text : Text}
    (suffix : item :: later <:+ pieces m 0 none text) :
    (∃ c rest, item = .inl c ∧ later = pieces m 0 none rest ∧ m none (c :: rest) = none) ∨
      ∃ value here left, item = .inr value ∧ later = pieces m 0 none left ∧
        m none here = some (value, left) := by
  induction text using search_induction is with
  | nil => simp [pieces] at suffix
  | char c rest missed ih =>
    rw [pieces_char is missed] at suffix
    rcases List.suffix_cons_iff.mp suffix with same | inside
    · obtain ⟨rfl, rfl⟩ := List.cons.inj same
      exact .inl ⟨c, rest, rfl, rfl, missed⟩
    · exact ih inside
  | found here value left known ih =>
    rw [pieces_match is known] at suffix
    rcases List.suffix_cons_iff.mp suffix with same | inside
    · obtain ⟨rfl, rfl⟩ := List.cons.inj same
      exact .inr ⟨value, here, left, rfl, rfl, known⟩
    · exact ih inside

theorem findAll_match (is : m.Local) {here left : Text} {value : α}
    (found : m none here = some (value, left)) :
    findAll m here = value :: findAll m left := by
  simp [findAll, pieces_match is found]

theorem findAll_char (is : m.Local) {c : Char} {rest : Text}
    (missed : m none (c :: rest) = none) : findAll m (c :: rest) = findAll m rest := by
  simp only [findAll, pieces_char is missed]
  rfl

theorem findAll_passed (is : m.Local) {start rest : Text}
    (missed : ∀ here, here ≠ [] → here <:+ start → m none (here ++ rest) = none) :
    findAll m (start ++ rest) = findAll m rest := by
  have chars : (start.map Sum.inl : List (Char ⊕ α)).filterMap Sum.getRight? = [] := by
    simp [List.filterMap_eq_nil_iff]
  rw [findAll, pieces_append is missed, List.filterMap_append, chars, List.nil_append, findAll]

theorem findAll_append (is : m.Local) {start rest : Text}
    (missed : ∀ c ∈ start, ∀ text, m none (c :: text) = none) :
    findAll m (start ++ rest) = findAll m rest := by
  refine findAll_passed is fun here filled suffix => ?_
  obtain ⟨c, inner, rfl⟩ := List.exists_cons_of_ne_nil filled
  exact missed c (suffix.subset List.mem_cons_self) _

theorem replaceBy_match {m : Matcher Text} (is : m.Local) {here left value : Text}
    (found : m none here = some (value, left)) :
    replaceBy m here = value ++ replaceBy m left := by
  simp [replaceBy, pieces_match is found]

theorem replaceBy_char {m : Matcher Text} (is : m.Local) {c : Char} {rest : Text}
    (missed : m none (c :: rest) = none) : replaceBy m (c :: rest) = c :: replaceBy m rest := by
  simp [replaceBy, pieces_char is missed]

theorem replaceBy_kept {m : Matcher Text} (is : m.Local) {start rest : Text}
    (missed : ∀ here, here ≠ [] → here <:+ start → m none (here ++ rest) = none) :
    replaceBy m (start ++ rest) = start ++ replaceBy m rest := by
  simp [replaceBy, pieces_append is missed, List.flatMap_map]

theorem replaceBy_append {m : Matcher Text} (is : m.Local) {start rest : Text}
    (missed : ∀ c ∈ start, ∀ text, m none (c :: text) = none) :
    replaceBy m (start ++ rest) = start ++ replaceBy m rest := by
  refine replaceBy_kept is fun here filled suffix => ?_
  obtain ⟨c, inner, rfl⟩ := List.exists_cons_of_ne_nil filled
  exact missed c (suffix.subset List.mem_cons_self) _

theorem replaceBy_same {m : Matcher Text} (is : m.Local) {text : Text}
    (same : ∀ here value left, here <:+ text → m none here = some (value, left) →
      here = value ++ left) : replaceBy m text = text := by
  induction text using search_induction is with
  | nil => rfl
  | char c rest missed ih =>
    rw [replaceBy_char is missed, ih]
    exact fun here value left suffix =>
      same here value left (suffix.trans (List.suffix_cons c rest))
  | found here value left found ih =>
    have whole := same here value left List.suffix_rfl found
    have behind : left <:+ here := whole ▸ List.suffix_append value left
    rw [replaceBy_match is found, ih, ← whole]
    exact fun later value left suffix => same later value left (suffix.trans behind)

theorem replaceBy_idle {m : Matcher Text} (is : m.Local) {text : Text}
    (missed : ∀ here, here <:+ text → m none here = none) : replaceBy m text = text :=
  replaceBy_same is fun here value left suffix found => by
    rw [missed here suffix] at found
    contradiction

theorem matched_of_mem_pieces {value : α} {skip : Nat} {before : Option Char} {text : Text}
    (member : .inr value ∈ pieces m skip before text) :
    ∃ before here left, m before here = some (value, left) := by
  induction text generalizing skip before with
  | nil => cases skip <;> simp [pieces] at member
  | cons c rest ih =>
    cases skip with
    | succ skip => exact ih member
    | zero =>
      simp only [pieces] at member
      split at member
      · rename_i found left known
        rcases List.mem_cons.mp member with same | later
        · cases same
          exact ⟨before, c :: rest, left, known⟩
        · exact ih later
      · rcases List.mem_cons.mp member with same | later
        · cases same
        · exact ih later

theorem matched_of_mem_findAll {value : α} {text : Text} (member : value ∈ findAll m text) :
    ∃ before here left, m before here = some (value, left) := by
  obtain ⟨item, place, right⟩ := List.mem_filterMap.mp member
  obtain rfl := Sum.getRight?_eq_some_iff.mp right
  exact matched_of_mem_pieces place

theorem suffix_of_mem_findAll (is : m.Local) {value : α} {text : Text}
    (member : value ∈ findAll m text) :
    ∃ here left, here <:+ text ∧ m none here = some (value, left) := by
  induction text using search_induction is with
  | nil => simp [findAll, pieces] at member
  | char c rest missed ih =>
    rw [findAll_char is missed] at member
    obtain ⟨here, left, suffix, found⟩ := ih member
    exact ⟨here, left, suffix.trans (List.suffix_cons c rest), found⟩
  | found here other left known ih =>
    rw [findAll_match is known] at member
    rcases List.mem_cons.mp member with rfl | later
    · exact ⟨here, left, List.suffix_rfl, known⟩
    · obtain ⟨place, rest, suffix, found⟩ := ih later
      obtain ⟨c, used, rfl⟩ := is.covers known
      exact ⟨place, rest, suffix.trans (List.suffix_append _ left), found⟩

section Leftmost

variable {P : Text → α → Text → Prop}

/-- The successive leftmost matches of a pattern: no match begins in front of the first, and the
others are those of the text that it leaves over. -/
inductive Leftmost (P : Text → α → Text → Prop) : Text → List α → Prop
  | none {text : Text} (free : ∀ here value left, here <:+ text → ¬ P here value left) :
      Leftmost P text []
  | next {front here left : Text} {value : α} {values : List α}
      (free : ∀ start other rest, start ≠ [] → start <:+ front → ¬ P (start ++ here) other rest)
      (found : P here value left) (later : Leftmost P left values) :
      Leftmost P (front ++ here) (value :: values)

theorem Leftmost.cons {c : Char} {rest : Text} {values : List α}
    (free : ∀ value left, ¬ P (c :: rest) value left) (later : Leftmost P rest values) :
    Leftmost P (c :: rest) values := by
  cases later with
  | none missed =>
    refine .none fun here value left suffix => ?_
    rcases List.suffix_cons_iff.mp suffix with rfl | inside
    · exact free value left
    · exact missed here value left inside
  | @next front here left value values missed found later =>
    rw [← List.cons_append]
    refine .next (fun start other left filled suffix => ?_) found later
    rcases List.suffix_cons_iff.mp suffix with rfl | inside
    · exact free other left
    · exact missed start other left filled inside

/-- A search finds the successive leftmost matches of its pattern, and nothing else. -/
theorem leftmost_iff (is : m.Local)
    (spec : ∀ {here value left}, m none here = some (value, left) ↔ P here value left)
    {text : Text} {values : List α} : Leftmost P text values ↔ values = findAll m text := by
  have missed : ∀ {here}, (∀ value left, ¬ P here value left) → m none here = none := by
    intro here free
    rw [Option.eq_none_iff_forall_ne_some]
    exact fun hit found => free hit.1 hit.2 (spec.mp found)
  constructor
  · intro leftmost
    induction leftmost with
    | @none text free =>
      have passed : findAll m (text ++ []) = findAll m [] := findAll_passed is fun here _ suffix =>
        missed fun value left => by
          rw [List.append_nil]
          exact free here value left suffix
      rw [← List.append_nil text, passed]
      rfl
    | @next front here left value values free found _ ih =>
      rw [findAll_passed is, findAll_match is (spec.mpr found), ih]
      exact fun start filled suffix => missed fun other rest => free start other rest filled suffix
  · rintro rfl
    induction text using search_induction is with
    | nil =>
      refine .none fun here value left suffix found => ?_
      rw [List.suffix_nil.mp suffix] at found
      exact absurd (is.nil.symm.trans (spec.mpr found)) nofun
    | char c rest free ih =>
      rw [findAll_char is free]
      exact ih.cons fun value left found => absurd (free.symm.trans (spec.mpr found)) nofun
    | found here value left known ih =>
      have first : Leftmost P ([] ++ here) (value :: findAll m left) :=
        .next (fun start _ _ filled suffix => absurd (List.suffix_nil.mp suffix) filled)
          (spec.mp known) ih
      rwa [← findAll_match is known] at first

end Leftmost

end ColorTheme.Text
