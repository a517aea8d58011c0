import ColorTheme.Proofs.Css.Rescan

/-!
What is kept of a part of a sheet. It is the text of the tokens from the first one that is no blank
to the last, without the comments between them, and in its place it is read as the same part. -/
namespace ColorTheme.Css

namespace Token

/-- Tokens as they were read in front of a text. -/
def Scanned (ts : List Token) (u : Text) : Prop := scan (source ts ++ u) = ts ++ scan u

namespace Scanned

variable {front back ts : List Token} {u : Text}

theorem drop (scanned : Scanned (front ++ back) u) : Scanned back u := by
  induction front with
  | nil => exact scanned
  | cons t front ih =>
    refine ih ?_
    unfold Scanned at scanned ⊢
    rw [List.cons_append, List.cons_append] at scanned
    obtain ⟨_, later⟩ := scan_eq_cons scanned
    rwa [source_append, source_scan] at later

theorem take (scanned : Scanned (front ++ back) u) : Scanned front (source back ++ u) := by
  have later : Scanned back u := scanned.drop
  unfold Scanned at scanned later ⊢
  rw [later, ← List.append_assoc, ← List.append_assoc, ← source_append]
  exact scanned

theorem filled (scanned : Scanned ts u) : ∀ t ∈ ts, t.text ≠ [] := by
  intro t member
  obtain ⟨rest, found⟩ := next?_of_mem scanned t member
  exact (next?_covers found).1

theorem spaces (scanned : Scanned ts u) {t : Token} (member : t ∈ ts) (kind : t.kind = .space) :
    ∀ c ∈ t.text, isSpace c = true := by
  obtain ⟨rest, found⟩ := next?_of_mem scanned t member
  exact (next?_shape found).isSpace kind

theorem stripComments_source (scanned : Scanned ts u) (clear : Clear ts) :
    stripComments (source ts) = source (bare ts) := by
  induction ts with
  | nil => rfl
  | cons t ts ih =>
    obtain ⟨first, clear⟩ := clear
    have behind : Scanned ts u := Scanned.drop (show Scanned ([t] ++ ts) u from scanned)
    have later := ih behind clear
    cases comment : t.isComment with
    | false =>
      have plain : Unopened t.text (source ts) := first.resolve_left (by simp [comment])
      rw [bare_cons_other comment, source_cons, source_cons, stripComments_append plain, later]
    | true =>
      have kind := isComment_iff.mp comment
      have found : next? (source (t :: ts) ++ u) = some (t, source (ts ++ scan u)) :=
        (scan_eq_cons scanned).1
      rw [source_append, source_scan] at found
      obtain ⟨body, text, split⟩ := (next?_shape found).exists_body kind
      -- Only the last comment of a sheet may be open.
      have ends : commentSpan (body ++ source ts) = (body, source ts) := by
        by_cases last : source ts ++ u = []
        · obtain ⟨empty, _⟩ := List.append_eq_nil_iff.mp last
          rw [last] at split
          rw [empty, split]
        · exact commentSpan_closed split last _
      rw [bare_cons_comment comment, source_cons, text, List.cons_append, List.cons_append,
        stripComments_comment, ends, later]

end Scanned

theorem exists_lead (ts : List Token) : ∃ lead rest, ts = lead ++ rest ∧
    (∀ t ∈ lead, t.isBlank = true) ∧ ∀ t ∈ rest.head?, t.isBlank = false := by
  refine ⟨ts.takeWhile isBlank, ts.dropWhile isBlank, List.takeWhile_append_dropWhile.symm,
    fun _ => List.mem_takeWhile_imp, fun t first => ?_⟩
  have solid := List.head?_dropWhile_not isBlank ts
  rw [first] at solid
  exact solid

theorem exists_core (ts : List Token) : ∃ lead core trail, ts = lead ++ (core ++ trail) ∧
    (∀ t ∈ lead, t.isBlank = true) ∧ (∀ t ∈ trail, t.isBlank = true) ∧
    (∀ t ∈ core.head?, t.isBlank = false) ∧ ∀ t ∈ core.getLast?, t.isBlank = false := by
  obtain ⟨lead, rest, rfl, before, first⟩ := exists_lead ts
  obtain ⟨trail, core, whole, after, last⟩ := exists_lead rest.reverse
  rw [List.reverse_eq_iff, List.reverse_append] at whole
  subst whole
  refine ⟨lead, core.reverse, trail.reverse, rfl, before, ?_, ?_, ?_⟩
  · simpa using after
  · intro t head
    refine first t ?_
    rw [List.head?_append, Option.mem_def.mp head]
    rfl
  · simpa using last

/-- A run of white space as tokens. -/
def blank (run : Text) : List Token := if run.isEmpty then [] else [⟨.space, run⟩]

theorem marks_append (front back : List Token) : marks (front ++ back) = marks front ++ marks back :=
  List.filter_append _ _

theorem marks_blank (run : Text) : marks (blank run) = [] := by
  unfold blank
  split
  · rfl
  · rfl

theorem scan_run {run text : Text} (spaces : ∀ c ∈ run, isSpace c = true)
    (solid : text.head?.any isSpace = false) : scan (run ++ text) = blank run ++ scan text := by
  cases run with
  | nil => rfl
  | cons c run => exact scan_space (List.cons_ne_nil c run) spaces solid

theorem nest_of_isBlank {t : Token} (blank : t.isBlank = true) (nesting : List Bracket) :
    t.nest nesting = nesting := by
  simp only [isBlank, Bool.or_eq_true, decide_eq_true_eq] at blank
  rcases blank with kind | kind
  · simp [nest, opens?, closes?, kind]
  · simp [nest, opens?, closes?, kind]

theorem nestAll_marks (ts : List Token) (nesting : List Bracket) :
    nestAll (marks ts) nesting = nestAll ts nesting := by
  induction ts generalizing nesting with
  | nil => rfl
  | cons t ts ih =>
    cases blank : t.isBlank with
    | true =>
      rw [marks_cons_blank blank, ih, nestAll, nestAll, List.foldl_cons, nest_of_isBlank blank]
    | false =>
      rw [marks_cons_other blank]
      exact ih _

theorem part_marks {ends : Token → Bool} (solid : ∀ t, ends t = true → t.isBlank = false)
    (ts : List Token) : Part ends (marks ts) ↔ Part ends ts := by
  have passed : ∀ nesting, (splitOutside ends nesting (marks ts)).2 = [] ↔
      (splitOutside ends nesting ts).2 = [] := by
    intro nesting
    induction ts generalizing nesting with
    | nil => rfl
    | cons t ts ih =>
      cases blank : t.isBlank with
      | true =>
        have goes : ends t = false := by
          rw [← Bool.not_eq_true]
          intro last
          exact absurd (solid t last) (by simp [blank])
        rw [marks_cons_blank blank, splitOutside, if_neg (by simp [goes]), nest_of_isBlank blank]
        exact ih nesting
      | false =>
        rw [marks_cons_other blank, splitOutside, splitOutside]
        split
        · simp
        · exact ih _
  constructor
  · intro part
    exact ⟨(passed []).mp part.passed, (nestAll_marks ts []).symm.trans part.closed⟩
  · intro part
    exact ⟨(passed []).mpr part.passed, (nestAll_marks ts []).trans part.closed⟩

theorem marks_eq_nil {ts : List Token} (blank : ∀ t ∈ ts, t.isBlank = true) : marks ts = [] :=
  List.filter_eq_nil_iff.mpr fun t member => by simp [blank t member]

theorem nestAll_blank {ts : List Token} (blank : ∀ t ∈ ts, t.isBlank = true)
    (nesting : List Bracket) : nestAll ts nesting = nesting := by
  rw [← nestAll_marks, marks_eq_nil blank]
  rfl

theorem Part.last_plain {ends : Token → Bool} {lead core trail : List Token}
    (part : Part ends (lead ++ (core ++ trail))) (after : ∀ t ∈ trail, t.isBlank = true) :
    ∀ t ∈ core.getLast?, t.isFunction = false := by
  intro t last
  obtain ⟨front, rfl⟩ := List.getLast?_eq_some_iff.mp last
  have closed := part.closed
  rw [nestAll_append, nestAll_append, nestAll_append, nestAll_blank after] at closed
  rw [← Bool.not_eq_true]
  intro function
  unfold isFunction at function
  split at function
  · rename_i kind
    simp [nestAll, nest, opens?, kind] at closed
  · contradiction

theorem halts_blank {trail : List Token} {u : Text} (orderly : Orderly trail)
    (scanned : Scanned trail u) (blank : ∀ t ∈ trail, t.isBlank = true) (halts : Halts u) :
    Halts (source trail ++ u) := by
  cases trail with
  | nil => exact halts
  | cons t trail =>
    cases comment : t.isComment with
    | true =>
      have firm := orderly.firm t List.mem_cons_self (by simp [isComment_iff.mp comment])
      obtain ⟨body, text, _⟩ := firm.comment comment
      rw [source_cons, text]
      rfl
    | false =>
      have kind : t.kind = .space := by
        by_contra other
        have solid := isBlank_eq_false.mpr ⟨other, comment⟩
        rw [blank t List.mem_cons_self] at solid
        contradiction
      have spaces := scanned.spaces List.mem_cons_self kind
      obtain ⟨c, x, text⟩ := List.exists_cons_of_ne_nil (scanned.filled t List.mem_cons_self)
      rw [source_cons, text]
      exact halts_of_break (mem_breaks_of_isSpace (spaces c (by simp [text]))) _

theorem blanks_of_blank {ts : List Token} {u : Text} (scanned : Scanned ts u)
    (blank : ∀ t ∈ ts, t.isBlank = true) : ∀ c ∈ source (bare ts), Text.isBlank c = true := by
  intro c member
  obtain ⟨t, inside, char⟩ := List.mem_flatMap.mp member
  obtain ⟨inside, other⟩ := List.mem_filter.mp inside
  have kind : t.kind = .space := by
    by_contra wrong
    have solid := isBlank_eq_false.mpr ⟨wrong, by simpa using other⟩
    rw [blank t inside] at solid
    contradiction
  exact isBlank_of_isSpace (scanned.spaces inside kind c char)

theorem trim_bare {core : List Token} (orderly : Orderly core) (filled : ∀ t ∈ core, t.text ≠ [])
    (first : ∀ t ∈ core.head?, t.isBlank = false) (last : ∀ t ∈ core.getLast?, t.isBlank = false) :
    Text.trim (source (bare core)) = source (bare core) := by
  have solid : ∀ t ∈ core, t.isBlank = false → t.isComment = false ∧
      t.text.head?.any Text.isBlank = false ∧ t.text.getLast?.any Text.isBlank = false := by
    intro t member solid
    obtain ⟨space, other⟩ := isBlank_eq_false.mp solid
    exact ⟨other, Text.trim_eq_iff.mp (orderly.firm t member space).trimmed⟩
  rw [Text.trim_eq_iff]
  constructor
  · cases core with
    | nil => rfl
    | cons t core =>
      obtain ⟨other, start, _⟩ := solid t List.mem_cons_self (first t rfl)
      obtain ⟨c, x, text⟩ := List.exists_cons_of_ne_nil (filled t List.mem_cons_self)
      rw [bare_cons_other other, source_cons, text]
      rw [text] at start
      exact start
  · rcases List.eq_nil_or_concat core with rfl | ⟨core, t, rfl⟩
    · rfl
    · rw [List.concat_eq_append] at solid last filled ⊢
      obtain ⟨other, _, stop⟩ := solid t (by simp) (last t (by simp))
      obtain ⟨c, known⟩ : ∃ c, t.text.getLast? = some c :=
        Option.isSome_iff_exists.mp (by simpa using filled t (by simp))
      rw [bare_append, bare_cons_other other, source_append, source_cons]
      simpa [bare, source, known] using stop

/-- What is kept are the tokens from the first to the last that is no blank, without comments. -/
theorem content_eq {lead core trail : List Token} {u : Text}
    (orderly : Orderly (lead ++ (core ++ trail))) (scanned : Scanned (lead ++ (core ++ trail)) u)
    (before : ∀ t ∈ lead, t.isBlank = true) (after : ∀ t ∈ trail, t.isBlank = true) :
    content (lead ++ (core ++ trail)) = Text.trim (source (bare core)) := by
  have front := blanks_of_blank scanned.take before
  have back := blanks_of_blank scanned.drop.drop after
  rw [content, scanned.stripComments_source (orderly.clear scanned.filled), bare_append,
    bare_append, source_append, source_append, ← List.append_assoc, Text.trim_between front back]

end Token

theorem stripComments_spaces {run : Text} (spaces : ∀ c ∈ run, isSpace c = true) (rest : Text) :
    stripComments (run ++ rest) = run ++ stripComments rest := by
  refine stripComments_append fun back ends filled opens => ?_
  obtain ⟨c, back, rfl⟩ := List.exists_cons_of_ne_nil filled
  have space := spaces c (((List.mem_tails _ _).mp ends).subset List.mem_cons_self)
  obtain ⟨rfl, _⟩ := List.cons_prefix_cons.mp opens
  contradiction


theorem trim_stripComments {pre text post : Text} (plain : ¬"/*".toList <:+: text)
    (before : ∀ c ∈ pre, isSpace c = true) (after : ∀ c ∈ post, isSpace c = true) :
    Text.trim (stripComments (pre ++ text ++ post)) = Text.trim text := by
  have post_self : stripComments post = post := by
    simpa [stripComments, stripComments.go] using stripComments_spaces after []
  have inner : stripComments (text ++ post) = text ++ post := by
    rw [stripComments_append, post_self]
    rintro back ends filled ⟨rest, opens⟩
    obtain ⟨start, rfl⟩ := (List.mem_tails _ _).mp ends
    replace opens : '/' :: '*' :: rest = back ++ post := opens
    rcases back with _ | ⟨c, _ | ⟨d, back⟩⟩
    · contradiction
    · have spelled : '*' :: rest = post := (List.cons.inj opens).2
      have star : '*' ∈ post := spelled ▸ List.mem_cons_self
      exact absurd (after '*' star) (by decide)
    · obtain ⟨rfl, second⟩ := List.cons.inj opens
      obtain ⟨rfl, _⟩ := List.cons.inj second
      exact plain ⟨start, back, by simp⟩
  rw [List.append_assoc, stripComments_spaces before, inner, ← List.append_assoc]
  exact Text.trim_between (fun c member => Token.isBlank_of_isSpace (before c member))
    (fun c member => Token.isBlank_of_isSpace (after c member)) text

namespace Token

theorem Orderly.reads {core : List Token} {u pre post : Text} {stop : Char}
    (orderly : Orderly core) (scanned : Scanned core u) (halts : Halts u)
    (first : ∀ t ∈ core.head?, t.isBlank = false)
    (last : ∀ t ∈ core.getLast?, t.isBlank = false ∧ t.isFunction = false)
    (before : ∀ c ∈ pre, isSpace c = true) (after : ∀ c ∈ post, isSpace c = true)
    (mark : stop ∈ [';', '{', '}']) : ∃ js,
      Reads (pre ++ source (bare core) ++ post) stop js ∧ marks js = marks core ∧
        (pre = [] → ∀ t ∈ core.head?, js.head? = some t) := by
  have all : ([';', '{', '}'].all fun c => !isSpace c && breaks.contains c) = true := by decide
  obtain ⟨solid, known⟩ : isSpace stop = false ∧ stop ∈ breaks := by
    simpa using List.all_eq_true.mp all stop mark
  have quiet := calm_of_break known
  have behind : scan (post ++ [stop]) = blank post ++ scan [stop] :=
    scan_run after (by simpa using solid)
  cases core with
  | nil =>
    -- The blanks on both sides are read as one.
    refine ⟨blank (pre ++ post), .of_scan quiet ?_, marks_blank _, nofun⟩
    have spaces : ∀ c ∈ pre ++ post, isSpace c = true := List.forall_mem_append.mpr ⟨before, after⟩
    have whole : scan (pre ++ post ++ [stop]) = blank (pre ++ post) ++ scan [stop] :=
      scan_run spaces (by simpa using solid)
    simpa [bare, source] using whole
  | cons t core =>
    obtain ⟨c, tail, spelled, next⟩ : ∃ c tail, post ++ [stop] = c :: tail ∧ c ∈ breaks := by
      cases post with
      | nil => exact ⟨stop, [], rfl, known⟩
      | cons c post => exact ⟨c, _, rfl, mem_breaks_of_isSpace (after c List.mem_cons_self)⟩
    obtain ⟨js, again⟩ := scan_bare orderly scanned last halts next tail
    have head := again.head t rfl (first t rfl)
    refine ⟨blank pre ++ js ++ blank post, .of_scan quiet ?_, ?_, ?_⟩
    · have inner := again.scanned
      rw [← spelled, behind] at inner
      rw [List.append_assoc, List.append_assoc, scan_run before, inner]
      · simp
      · obtain ⟨space, other⟩ := isBlank_eq_false.mp (first t rfl)
        have firm := orderly.firm t List.mem_cons_self space
        obtain ⟨d, x, text⟩ := List.exists_cons_of_ne_nil (scanned.filled t List.mem_cons_self)
        rw [bare_cons_other other, source_cons, text]
        exact firm.isSpace text
    · rw [marks_append, marks_append, marks_blank, marks_blank, List.nil_append, List.append_nil,
        again.marks]
    · rintro rfl s member
      obtain rfl : t = s := by simpa using member
      simp [blank, head]

theorem Reads.source_eq {text : Text} {stop : Char} {ts : List Token} (reads : Reads text stop ts) :
    source ts = text := by
  have spelled := congrArg source (reads [])
  rw [source_append, source_scan, source_scan, List.append_cancel_right_eq] at spelled
  exact spelled.symm

theorem Orderly.kept {ends : Token → Bool} {ts : List Token} {u : Text}
    (orderly : Orderly ts) (scanned : Scanned ts u) (part : Part ends ts)
    (halts : Halts u) (solid : ∀ t, ends t = true → t.isBlank = false)
    (pre post : Text) (stop : Char) (before : ∀ c ∈ pre, isSpace c = true)
    (after : ∀ c ∈ post, isSpace c = true)
    (mark : stop ∈ [';', '{', '}']) : ∃ js,
      Kept ends (pre ++ content ts ++ post) stop (content ts) js ∧
        (pre = [] → ∀ t ∈ ts.head?, t.isBlank = false → js.head? = some t) := by
  -- The blanks around the core are cut off; where they end a part makes no difference.
  obtain ⟨lead, core, trail, rfl, leading, trailing, first, last⟩ := exists_core ts
  have inside := orderly.drop.take
  have trimmed := trim_bare inside scanned.drop.take.filled first last
  have kept := content_eq orderly scanned leading trailing
  have plain := part.last_plain trailing
  have further := halts_blank orderly.drop.drop scanned.drop.drop trailing halts
  obtain ⟨js, reads, same, head⟩ := inside.reads scanned.drop.take further first
    (fun t member => ⟨last t member, plain t member⟩) before after mark
  rw [kept, trimmed]
  refine ⟨js, ⟨reads, ?_, ?_⟩, ?_⟩
  · have marked := (part_marks solid _).mpr part
    rw [marks_append, marks_append, marks_eq_nil leading, marks_eq_nil trailing,
      List.nil_append, List.append_nil, ← same] at marked
    exact (part_marks solid js).mp marked
  · rw [content, reads.source_eq, trim_stripComments inside.plain before after, trimmed]
  · intro empty t member other
    refine head empty t ?_
    cases lead with
    | cons s lead =>
      obtain rfl : s = t := by simpa using member
      rw [leading s List.mem_cons_self] at other
      contradiction
    | nil =>
      cases core with
      | cons s core => simpa using member
      | nil =>
        have blank := trailing t (List.mem_of_mem_head? (by simpa using member))
        rw [blank] at other
        contradiction

end Token
end ColorTheme.Css
