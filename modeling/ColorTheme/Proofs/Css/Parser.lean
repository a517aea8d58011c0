import ColorTheme.Proofs.Css.Legible
import ColorTheme.Proofs.Text.Trim

/-!
Reading plain rules. A plain rule is legible, so it is read as it was written, whatever follows it
in the sheet. -/
namespace ColorTheme.Css

theorem stripComments_plain {text : Text} (plain : ∀ c ∈ text, isPlainChar c = true) :
    stripComments text = text := by
  unfold stripComments
  induction text with
  | nil => rfl
  | cons c rest ih =>
    obtain ⟨first, plain⟩ := List.forall_mem_cons.mp plain
    have slash := ne_of_isPlainChar first (d := '/') (by decide)
    have star := ne_of_isPlainChar first (d := '*') (by decide)
    simp [stripComments.go, slash, star, ih plain]

namespace Token

theorem inert_passed {t : Token} (inert : Inert t) :
    t.isSemicolon = false ∧ t.opensBlock = false ∧ t.closesBlock = false := by
  simp only [isSemicolon, opensBlock, closesBlock, decide_eq_false_iff_not]
  cases inert with
  | bare opens closes kind bare =>
    refine ⟨kind, ?_, ?_⟩
    · intro same
      simp [opens?, same] at opens
    · intro same
      simp [closes?, same] at closes
  | opening opens text bare =>
    refine ⟨?_, ?_, ?_⟩
    all_goals
      intro same
      simp [opens?, same] at opens
  | closing => decide

theorem part_of_inert {ends : Token → Bool} {ts : List Token} (inert : ∀ t ∈ ts, Inert t)
    (goes : ∀ t, Inert t → ends t = false) (closed : nestAll ts [] = []) : Part ends ts := by
  refine ⟨?_, closed⟩
  clear closed
  generalize ([] : List Bracket) = nesting
  induction ts generalizing nesting with
  | nil => rfl
  | cons t ts ih =>
    obtain ⟨first, inert⟩ := List.forall_mem_cons.mp inert
    rw [splitOutside, if_neg (by simp [goes t first])]
    exact ih inert _

theorem next?_point {rest left : Text} {t : Token} (found : next? ('.' :: rest) = some (t, left)) :
    t.kind = .number ∨ t.kind = .delimiter := by
  have name : startsName ('.' :: rest) = false := rfl
  cases number : startsNumber ('.' :: rest) with
  | true =>
    simp only [next?, isSpace, isNewline, number] at found
    cases found
    exact .inl rfl
  | false =>
    simp only [next?, isSpace, isNewline, number, name] at found
    cases found
    exact .inr rfl

end Token

/-- A property is a name without escapes. A value is trimmed plain text, in which all round
brackets are closed and no address begins. -/
structure Declaration.Plain (d : Declaration) : Prop where
  named : d.property.head?.any isNameStart = true
  property : d.property.all (fun c => isNamePart c && c ≠ '\x00') = true
  value : d.value.all isValueChar = true
  trimmed : Text.trim d.value = d.value
  closed : depthAfter 0 d.value = some 0
  address : NoAddress d.value

instance (d : Declaration) : Decidable d.Plain :=
  decidable_of_iff (d.property.head?.any isNameStart = true ∧
      d.property.all (fun c => isNamePart c && c ≠ '\x00') = true ∧
      d.value.all isValueChar = true ∧ Text.trim d.value = d.value ∧
      depthAfter 0 d.value = some 0 ∧ NoAddress d.value)
    ⟨fun ⟨named, property, value, trimmed, closed, address⟩ =>
      ⟨named, property, value, trimmed, closed, address⟩,
      fun plain => ⟨plain.named, plain.property, plain.value, plain.trimmed, plain.closed,
        plain.address⟩⟩

theorem Declaration.Plain.spelled {d : Declaration} (plain : d.Plain) :
    ∃ c rest, d.property = c :: rest ∧ isNameStart c = true := by
  have named := plain.named
  cases known : d.property with
  | nil => simp [known] at named
  | cons c rest => exact ⟨c, rest, rfl, by simpa [known] using named⟩

/-- A selector is trimmed text that begins with a point. -/
structure Rule.Plain (r : Rule) : Prop where
  pointed : r.selector.head? = some '.'
  selector : r.selector.all isSelectorChar = true
  trimmed : Text.trim r.selector = r.selector
  declarations : ∀ d ∈ r.declarations, d.Plain

instance (r : Rule) : Decidable r.Plain :=
  decidable_of_iff (r.selector.head? = some '.' ∧ r.selector.all isSelectorChar = true ∧
      Text.trim r.selector = r.selector ∧ ∀ d ∈ r.declarations, d.Plain)
    ⟨fun ⟨pointed, selector, trimmed, declarations⟩ => ⟨pointed, selector, trimmed, declarations⟩,
      fun plain => ⟨plain.pointed, plain.selector, plain.trimmed, plain.declarations⟩⟩

theorem Declaration.Plain.legible {d : Declaration} (plain : d.Plain) : d.Legible := by
  have space : isPlainChar ' ' = true := by decide
  have inside : ∀ c ∈ ' ' :: d.value, isPlainChar c = true :=
    List.forall_mem_cons.mpr ⟨space, fun c member => by
      simp [isPlainChar, List.all_eq_true.mp plain.value c member]⟩
  have address : NoAddress (' ' :: d.value) := by
    intro found
    rw [List.map_cons, List.infix_cons_iff] at found
    rcases found with start | later
    · exact absurd (List.cons_prefix_cons.mp start).1 (by decide)
    · exact plain.address later
  have closed : depthAfter 0 (' ' :: d.value) = some 0 := by
    rw [depthAfter_cons (by decide) (by decide), plain.closed]
  obtain ⟨value, scanned, covered, inert, nested⟩ :=
    Token.scan_ends inside address ⟨';', [], rfl, .inl rfl⟩ closed
  refine ⟨⟨?_, ?_⟩, value, ?_, ?_, ?_⟩
  · obtain ⟨c, rest, spelled, starts⟩ := plain.spelled
    have minus := Token.ne_of_isNameStart starts (d := '-') (by decide)
    have escape := Token.ne_of_isNameStart starts (d := '\\') (by decide)
    simp_all [startsName]
  · simpa using plain.property
  · exact .of_scan (by decide) scanned
  · refine Token.part_of_inert inert (fun t known => ?_) nested
    simp [Token.endsValue, Token.inert_passed known]
  · rw [Token.content, covered, stripComments_plain inside, Text.trim_space_cons, plain.trimmed]

theorem Rule.Plain.legible {r : Rule} (plain : r.Plain) : r.Legible := by
  obtain ⟨more, pointed⟩ := List.head?_eq_some_iff.mp plain.pointed
  have space : isPlainChar ' ' = true := by decide
  have inside : ∀ c ∈ r.selector ++ [' '], isPlainChar c = true := by
    refine List.forall_mem_append.mpr ⟨fun c member => ?_, List.forall_mem_singleton.mpr space⟩
    simp [isPlainChar, List.all_eq_true.mp plain.selector c member]
  have bare : Bare (r.selector ++ [' ']) := by
    refine bare_append (fun c member => ?_) (by simp [Bare])
    have known := List.all_eq_true.mp plain.selector c member
    constructor
    · rintro rfl
      exact absurd known (by decide)
    · rintro rfl
      exact absurd known (by decide)
  obtain ⟨selector, scanned, covered, inert, nested⟩ := Token.scan_ends inside
    (noAddress_bare bare) ⟨'{', [], rfl, .inr rfl⟩ (depthAfter_bare bare 0)
  obtain ⟨t, ts, rfl⟩ : ∃ t ts, selector = t :: ts := by
    refine List.exists_cons_of_ne_nil fun empty => ?_
    rw [empty, pointed] at covered
    contradiction
  have kind : t.kind = .number ∨ t.kind = .delimiter := by
    obtain ⟨found, _⟩ := Token.scan_eq_cons scanned
    rw [pointed] at found
    exact Token.next?_point found
  refine ⟨by simp [pointed], ⟨t, ts, ⟨.of_scan (by decide) scanned, ?_, ?_⟩, ?_, ?_⟩,
    fun d member => (plain.declarations d member).legible⟩
  · exact Token.part_of_inert inert (fun t known => (Token.inert_passed known).2.1) nested
  · have trimmed := plain.trimmed
    have solid : Text.isBlank '.' = false := by decide
    rw [Token.content, covered, stripComments_plain inside]
    rw [pointed] at trimmed ⊢
    rw [Text.trim, Text.trimStart_cons_of_solid solid] at trimmed
    rw [List.cons_append, Text.trim, Text.trimStart_cons_of_solid solid, ← List.cons_append,
      Text.trimEnd_space, trimmed]
  · rcases kind with known | known
    · simp [Token.isFiller, Token.isBlank, known]
    · simp [Token.isFiller, Token.isBlank, known]
  · intro name keyword
    rcases kind with known | known
    · simp [keyword] at known
    · simp [keyword] at known

/-- Plain rules in front of a sheet are read as they were written. -/
theorem Sheet.ofTokens_rules {rules : List Rule} (plain : ∀ r ∈ rules, r.Plain) (isFirst : Bool)
    (css : Text) :
    Sheet.ofTokens isFirst (Token.scan (Sheet.render (rules.map .rule) ++ css)) =
      (Sheet.ofTokens (isFirst && rules.isEmpty) (Token.scan css)).map (rules.map .rule ++ ·) := by
  have legible : ∀ node ∈ rules.map Node.rule, node.Legible := by
    intro node member
    obtain ⟨r, inside, rfl⟩ := List.mem_map.mp member
    exact (plain r inside).legible
  have kept : Sheet.setsCharset (rules.map .rule) = false := by
    cases rules with
    | nil => rfl
    | cons r rules => rfl
  rw [Sheet.ofTokens_render legible isFirst (by simp [kept]) css, List.isEmpty_map]

end ColorTheme.Css
