import ColorTheme.Proofs.Escape
import ColorTheme.Proofs.Text.Lookbehind

/-!
What is left to escape in an escaped text. Calls do not overlap, so every call of the source that
is to be escaped is found. A call of the escaped text that could still be escaped was none in the
source: it had brackets among its arguments, those of escaped calls. -/
namespace ColorTheme.EscapedCalls

open Text (Layout)
open Text.Layout

def isFlat (c : Char) : Bool := c ≠ '(' && c ≠ ')'

/-- A listed function and its arguments, without brackets among them. -/
def IsCall (text arguments : Text) : Prop :=
  ∃ name ∈ functions, text = name ++ "(" ++ arguments ++ ")" ∧ ∀ c ∈ arguments, isFlat c = true

theorem functions_word : ∀ name ∈ functions, name ≠ [] ∧
    ∀ c ∈ name, Text.isWordChar c = true ∧ isFlat c = true ∧ c ≠ '#' := by
  have plain : functions.all (fun name => !name.isEmpty &&
      name.all fun c => Text.isWordChar c && isFlat c && c ≠ '#') = true := by decide +kernel
  intro name listed
  have known := List.all_eq_true.mp plain name listed
  simp only [Bool.and_eq_true, List.all_eq_true, decide_eq_true_eq] at known
  exact ⟨by simpa using known.1, fun c member => ⟨(known.2 c member).1.1, (known.2 c member).1.2,
    (known.2 c member).2⟩⟩

/-- Texts without brackets that end at the first bracket are told by what comes after them. -/
theorem flat_inj {x y r s : Text} {c d : Char} (flat : ∀ a ∈ x, isFlat a = true)
    (even : ∀ a ∈ y, isFlat a = true) (first : isFlat c = false) (second : isFlat d = false)
    (same : x ++ c :: r = y ++ d :: s) : x = y ∧ c = d ∧ r = s := by
  have cut : ∀ {text rest : Text} {e : Char}, (∀ a ∈ text, isFlat a = true) → isFlat e = false →
      (text ++ e :: rest).takeWhile isFlat = text ∧
        (text ++ e :: rest).dropWhile isFlat = e :: rest :=
    fun inner stop => Text.run_append inner stop
  obtain ⟨front, behind⟩ := cut flat first
  obtain ⟨front', behind'⟩ := cut even second
  rw [same] at front behind
  obtain ⟨rfl, rfl⟩ := List.cons.inj (behind.symm.trans behind')
  exact ⟨front.symm.trans front', rfl, rfl⟩

theorem IsCall.unique {text other arguments more left rest : Text} (call : IsCall text arguments)
    (again : IsCall other more) (same : text ++ left = other ++ rest) :
    text = other ∧ arguments = more ∧ left = rest := by
  obtain ⟨name, listed, rfl, flat⟩ := call
  obtain ⟨name', listed', rfl, flat'⟩ := again
  have inner := fun a h => ((functions_word name listed).2 a h).2.1
  have inner' := fun a h => ((functions_word name' listed').2 a h).2.1
  have whole : name ++ '(' :: (arguments ++ ')' :: left) = name' ++ '(' :: (more ++ ')' :: rest) := by
    simpa using same
  obtain ⟨rfl, _, same⟩ := flat_inj inner inner' rfl rfl whole
  obtain ⟨rfl, _, rfl⟩ := flat_inj flat flat' rfl rfl same
  exact ⟨rfl, rfl, rfl⟩

/-- No call begins within another one. -/
theorem IsCall.apart {front rest arguments other more left behind : Text}
    (call : IsCall (front ++ rest) arguments) (within : front ≠ []) (filled : rest ≠ [])
    (bounded : Text.atBoundary Text.isWordChar front.getLast? = true) (again : IsCall other more) :
    rest ++ left ≠ other ++ behind := by
  intro same
  obtain ⟨name, listed, whole, flat⟩ := call
  obtain ⟨name', listed', rfl, flat'⟩ := again
  have inner' := fun a h => ((functions_word name' listed').2 a h).2.1
  have split : front ++ rest = name ++ ("(" ++ arguments ++ ")") := by simpa using whole
  rcases List.append_eq_append_iff.mp split with ⟨more, rfl, _⟩ | ⟨later, rfl, closing⟩
  · -- In the name of the function a letter comes before.
    have word := (functions_word _ listed).2 (front.getLast within)
      (List.mem_append_left _ (List.getLast_mem within))
    rw [List.getLast?_eq_getLast_of_ne_nil within] at bounded
    simp [Text.atBoundary, word.1] at bounded
  · cases later with
    | nil =>
      have word := (functions_word _ listed).2 (name.getLast (functions_word _ listed).1)
        (List.getLast_mem _)
      rw [List.append_nil, List.getLast?_eq_getLast_of_ne_nil (functions_word _ listed).1] at bounded
      simp [Text.atBoundary, word.1] at bounded
    | cons c later =>
      -- Among the arguments a closing bracket comes before the next opening one.
      have tail : arguments ++ [')'] = later ++ rest := (List.cons.inj closing).2
      have ends : ∃ last, rest = last ++ [')'] ∧ ∀ a ∈ last, isFlat a = true := by
        rcases List.append_eq_append_iff.mp tail with ⟨e, _, stop⟩ | ⟨e, inner, stop⟩
        · cases e with
          | nil => exact ⟨[], stop.symm, nofun⟩
          | cons d e => exact absurd (List.append_eq_nil_iff.mp (List.cons.inj stop).2.symm).2 filled
        · exact ⟨e, stop, fun a h => flat a (inner ▸ List.mem_append_right later h)⟩
      obtain ⟨last, rfl, even⟩ := ends
      have brackets : last ++ ')' :: left = name' ++ '(' :: (more ++ ')' :: behind) := by
        simpa using same
      exact absurd (flat_inj even inner' rfl rfl brackets).2.1 (by decide)

/-- The matcher finds the call that begins at a place where a word may begin. -/
theorem call_eq_some {before : Option Char} {here text arguments left : Text} :
    call before here = some ((text, arguments), left) ↔
      Text.atBoundary Text.isWordChar before = true ∧ IsCall text arguments ∧
        here = text ++ left := by
  have sound : ∀ {text arguments left : Text}, call before here = some ((text, arguments), left) →
      Text.atBoundary Text.isWordChar before = true ∧ IsCall text arguments ∧
        here = text ++ left := by
    intro text arguments left found
    have whole := (call_covers found).1
    unfold call at found
    split at found
    · contradiction
    · rename_i bounded
      obtain ⟨name, listed, shape⟩ := List.exists_of_findSome?_eq_some found
      simp only [Option.bind_eq_bind, Option.bind_eq_some_iff, Text.after?_eq_some] at shape
      obtain ⟨inner, _, rest, _, same⟩ := shape
      cases Option.some.inj same
      refine ⟨by simpa using bounded, ⟨name, listed, rfl, ?_⟩, whole⟩
      exact List.all_eq_true.mp List.all_takeWhile
  refine ⟨sound, ?_⟩
  rintro ⟨bounded, called, rfl⟩
  have met : (call before (text ++ left)).isSome := by
    obtain ⟨name, listed, rfl, flat⟩ := called
    rw [call, bounded, if_neg (by decide), List.findSome?_isSome_iff]
    refine ⟨name, listed, ?_⟩
    have run : (arguments ++ ')' :: left).takeWhile (fun c => c ≠ '(' && c ≠ ')') = arguments :=
      (Text.run_append flat rfl).1
    have start : name ++ ("(" : Text) ++ arguments ++ (")" : Text) ++ left =
        (name ++ ("(" : Text)) ++ (arguments ++ ')' :: left) := by simp
    have close : Text.after? ")" ((arguments ++ ')' :: left).drop arguments.length) = some left := by
      rw [List.drop_left]
      exact Text.after?_append ")" left
    simp only [start, Text.after?_append, Option.bind_eq_bind, Option.bind_some]
    rw [run, close]
    rfl
  obtain ⟨⟨⟨other, more⟩, rest⟩, known⟩ := Option.isSome_iff_exists.mp met
  obtain ⟨_, again, same⟩ := sound known
  obtain ⟨rfl, rfl, rfl⟩ := called.unique again same
  exact known

theorem IsCall.ne_nil {text arguments : Text} (called : IsCall text arguments) : text ≠ [] := by
  obtain ⟨name, listed, rfl, _⟩ := called
  simp

theorem call_spelled : call.Covers Prod.fst := by
  intro before here value left found
  obtain ⟨_, called, whole⟩ := call_eq_some.mp found
  exact ⟨called.ne_nil, whole⟩

theorem write_calls (symbols : Bindings) (before : Option Char) (text : Text) :
    write id (layout symbols (Text.pieces call 0 before text)) = text := by
  rw [write_layout]
  exact Text.write_found call_spelled before text

/-- A call among the characters of another one and what follows it is that one or comes later. -/
theorem IsCall.cases_chars {before : Option Char} {text arguments other more : Text}
    {front rest l : Layout Text} (call : IsCall other more) (again : IsCall text arguments)
    (bounded : Text.atBoundary Text.isWordChar (Text.lastOf before (write id front)) = true)
    (whole : other.map Sum.inl ++ l = front ++ (text.map Sum.inl ++ rest)) :
    arguments = more ∨ ∃ later, front = other.map .inl ++ later ∧
      l = later ++ (text.map .inl ++ rest) := by
  rcases List.append_eq_append_iff.mp whole with ⟨later, split, behind⟩ | ⟨mid, kept, behind⟩
  · exact .inr ⟨later, split, behind⟩
  · obtain ⟨start, stop, rfl, rfl, rfl⟩ := List.map_eq_append_iff.mp kept
    have same : stop ++ write id l = text ++ write id rest := by
      simpa using (congrArg (write id) behind).symm
    by_cases past : stop = []
    · subst past
      exact .inr ⟨[], by simp, behind.symm⟩
    · by_cases first : start = []
      · subst first
        exact .inl (call.unique again same).2.1.symm
      · have inner : Text.atBoundary Text.isWordChar start.getLast? = true := by
          rwa [write_chars, Text.lastOf, List.getLast?_eq_getLast_of_ne_nil first, Option.some_or,
            ← List.getLast?_eq_getLast_of_ne_nil first] at bounded
        exact absurd same (call.apart first past inner again)

/-- A call that is written in characters of the layout was not to be escaped. -/
theorem isEscapable_of_chars {symbols : Bindings} {before : Option Char} {source : Text}
    {front rest : Layout Text} {text arguments : Text}
    (whole : layout symbols (Text.pieces call 0 before source) =
      front ++ (text.map Sum.inl ++ rest))
    (called : IsCall text arguments)
    (bounded : Text.atBoundary Text.isWordChar (Text.lastOf before (write id front)) = true) :
    isEscapable symbols arguments = false := by
  induction before, source using Text.pieces_induction call_spelled generalizing front with
  | nil before =>
    have filled := called.ne_nil
    simp [Text.pieces, layout, filled] at whole
  | char before c source missed ih =>
    have written := write_calls symbols before (c :: source)
    rw [Text.pieces_passed missed, layout] at whole written
    cases front with
    | nil =>
      rw [whole] at written
      have found := call_eq_some.mpr ⟨bounded, called, by simpa using written.symm⟩
      exact absurd found (by simp [missed])
    | cons item front =>
      obtain ⟨rfl, later⟩ := List.cons.inj whole
      exact ih later (by simpa using bounded)
  | found before value left known ih =>
    obtain ⟨other, more⟩ := value
    rw [Text.pieces_found call_spelled known] at whole
    cases escapable : isEscapable symbols more with
    | true =>
      rw [layout_escaped escapable] at whole
      cases front with
      | nil =>
        obtain ⟨c, tail, spelled⟩ := List.exists_cons_of_ne_nil called.ne_nil
        simp [spelled] at whole
      | cons item front =>
        obtain ⟨rfl, later⟩ := List.cons.inj whole
        exact ih later (by simpa [Text.lastOf_append] using bounded)
    | false =>
      rw [layout_kept escapable] at whole
      obtain ⟨_, again, _⟩ := call_eq_some.mp known
      rcases again.cases_chars called bounded whole with same | ⟨later, rfl, behind⟩
      · rw [same, escapable]
      · exact ih behind (by simpa [Text.lastOf_append] using bounded)

section Colors

/-- The digits of a color begin no call: another character comes within six. -/
theorem digits_ne_call {name digits here rest : Text} (listed : name ∈ functions)
    (six : digits.length = 6) (lower : ∀ c ∈ digits, c ∈ sentinelDigits) :
    digits ++ rest ≠ name ++ "(" ++ here := by
  intro same
  have short : ∀ name ∈ functions, ((name ++ ("(" : Text)).take 6).any
      (fun c => !sentinelDigits.contains c) = true := by decide +kernel
  obtain ⟨c, early, other⟩ := List.any_eq_true.mp (short name listed)
  have first : c ∈ (name ++ ("(" : Text) ++ here).take 6 := by
    rw [List.take_append]
    exact List.mem_append_left _ early
  rw [← same, List.take_append_of_le_length (Nat.le_of_eq six.symm)] at first
  exact absurd (lower c (List.mem_of_mem_take first)) (by simpa using other)

theorem sentinelDigits_word : sentinelDigits.all Text.isWordChar = true := by decide +kernel

/-- Every place of a layout is spelled as a color. -/
def Colored (spell : Text → Text) (l : Layout Text) : Prop :=
  ∀ p, .inr p ∈ l → IsColor (spell p)

variable {spell : Text → Text} {l : Layout Text}

theorem Colored.tail {item : Char ⊕ Text} (colored : Colored spell (item :: l)) : Colored spell l :=
  fun p member => colored p (List.mem_cons_of_mem item member)

theorem Colored.isFlat (colored : Colored spell l) {p : Text} (member : .inr p ∈ l) :
    ∀ c ∈ spell p, isFlat c = true := by
  obtain ⟨digits, spelled, _, lower⟩ := colored p member
  have plain : ('#' :: sentinelDigits).all EscapedCalls.isFlat = true := by decide
  rw [spelled]
  intro c inside
  refine List.all_eq_true.mp plain c ?_
  rcases List.mem_cons.mp inside with rfl | digit
  · exact List.mem_cons_self
  · exact List.mem_cons_of_mem _ (lower c digit)

theorem split_call (colored : Colored spell l) {before : Option Char} {front here : Text}
    {name : Text} (listed : name ∈ functions) (whole : write spell l = front ++ (name ++ "(" ++ here))
    (bounded : Text.atBoundary Text.isWordChar (Text.lastOf before front) = true) :
    ∃ start later, l = start ++ later ∧ write spell start = front ∧
      write spell later = name ++ "(" ++ here := by
  induction l generalizing before front with
  | nil => simp at whole
  | cons item l ih =>
    cases front with
    | nil => exact ⟨[], item :: l, rfl, rfl, whole⟩
    | cons c front =>
      cases item with
      | inl d =>
        obtain ⟨rfl, rest⟩ := List.cons.inj whole
        rw [Text.lastOf_cons] at bounded
        obtain ⟨start, later, rfl, rfl, written⟩ := ih colored.tail rest bounded
        exact ⟨.inl d :: start, later, rfl, rfl, written⟩
      | inr p =>
        obtain ⟨digits, color, six, lower⟩ := colored p List.mem_cons_self
        rw [write_place] at whole
        rcases List.append_eq_append_iff.mp whole with ⟨front', split, rest⟩ | ⟨inner, split, rest⟩
        · rw [split, Text.lastOf_append] at bounded
          obtain ⟨start, later, rfl, rfl, written⟩ := ih colored.tail rest bounded
          exact ⟨.inr p :: start, later, rfl, by rw [write_place, split], written⟩
        · obtain ⟨rfl, inside⟩ := List.cons.inj (color.symm.trans split)
          cases front with
          | nil =>
            obtain rfl : digits = inner := inside
            exact absurd rest.symm (digits_ne_call listed six lower)
          | cons d front =>
            have digit : (d :: front).getLast (List.cons_ne_nil d front) ∈ digits :=
              inside ▸ List.mem_append_left inner (List.getLast_mem _)
            have word := List.all_eq_true.mp sentinelDigits_word _ (lower _ digit)
            simp [Text.lastOf, Text.atBoundary, List.getLast?_cons_cons,
              List.getLast?_eq_getLast_of_ne_nil (List.cons_ne_nil d front), word] at bounded

/-- The name, the arguments and the brackets of a call begin and end with characters. -/
theorem split_arguments (colored : Colored spell l) {name arguments left : Text}
    (listed : name ∈ functions)
    (whole : write spell l = name ++ "(" ++ (arguments ++ ')' :: left)) :
    ∃ inner rest, l = (name ++ ("(" : Text)).map .inl ++ (inner ++ .inl ')' :: rest) ∧
      write spell inner = arguments := by
  have plain : '#' ∉ name ++ ("(" : Text) := by
    intro member
    rcases List.mem_append.mp member with inside | opening
    · exact ((functions_word name listed).2 '#' inside).2.2 rfl
    · exact absurd opening (by decide)
  have marked : ∀ p, .inr p ∈ l → ∃ tail, spell p = '#' :: tail := by
    intro p member
    obtain ⟨digits, spelled, _⟩ := colored _ member
    exact ⟨digits, spelled⟩
  obtain ⟨later, rfl, written⟩ := chars_of_write marked plain whole
  have foreign : ∀ p, .inr p ∈ later → ')' ∉ spell p := by
    intro p member closing
    exact absurd (colored.isFlat (List.mem_append_right _ member) ')' closing) (by decide)
  obtain ⟨inner, rest, rfl, inside, _⟩ := split_char foreign written
  exact ⟨inner, rest, rfl, inside⟩

theorem bounded_source (colored : Colored spell l)
    (bounded : Text.atBoundary Text.isWordChar (write spell l).getLast? = true) :
    Text.atBoundary Text.isWordChar (write id l).getLast? = true := by
  rcases List.eq_nil_or_concat l with rfl | ⟨front, item, rfl⟩
  · rfl
  · rw [List.concat_eq_append] at colored bounded ⊢
    cases item with
    | inl c => simpa using bounded
    | inr p =>
      obtain ⟨digits, spelled, six, lower⟩ := colored p (by simp)
      have filled : digits ≠ [] := fun empty => by simp [empty] at six
      have word := List.all_eq_true.mp sentinelDigits_word _ (lower _ (List.getLast_mem filled))
      simp [spelled, List.getLast?_append, List.getLast?_cons,
        List.getLast?_eq_getLast_of_ne_nil filled, Text.atBoundary, word] at bounded

end Colors

/-- A listed call of the escaped text with escaped calls among its arguments. In the source their
brackets keep it from being found; with sentinels in their places it could be escaped. -/
structure Encloses (symbols : Bindings) (calls : EscapedCalls) (l front inner rest : Layout Text)
    (name : Text) : Prop where
  listed : name ∈ functions
  whole : l = front ++ ((name ++ ("(" : Text)).map .inl ++ inner ++ .inl ')' :: rest)
  bounded : Text.atBoundary Text.isWordChar (write calls.spelling front).getLast? = true
  flat : ∀ c, .inl c ∈ inner → isFlat c = true
  holds : ∃ call, .inr call ∈ inner
  escapable : isEscapable symbols (write calls.spelling inner) = true

theorem mem_layout {symbols : Bindings} {found : Layout (Text × Text)} {text : Text} :
    .inr text ∈ layout symbols found ↔
      ∃ arguments, isEscapable symbols arguments = true ∧ .inr (text, arguments) ∈ found := by
  induction found with
  | nil => simp [layout]
  | cons item rest ih =>
    cases item with
    | inl c => simp [layout, ih]
    | inr other =>
      obtain ⟨call, more⟩ := other
      cases escapable : isEscapable symbols more with
      | true =>
        rw [layout_escaped escapable, List.mem_cons, ih]
        constructor
        · rintro (same | ⟨arguments, known, member⟩)
          · cases same
            exact ⟨more, escapable, List.mem_cons_self⟩
          · exact ⟨arguments, known, List.mem_cons_of_mem _ member⟩
        · rintro ⟨arguments, known, member⟩
          rcases List.mem_cons.mp member with same | later
          · cases same
            exact .inl rfl
          · exact .inr ⟨arguments, known, later⟩
      | false =>
        rw [layout_kept escapable]
        constructor
        · intro member
          rcases List.mem_append.mp member with char | later
          · simp at char
          · obtain ⟨arguments, known, inside⟩ := ih.mp later
            exact ⟨arguments, known, List.mem_cons_of_mem _ inside⟩
        · rintro ⟨arguments, known, member⟩
          rcases List.mem_cons.mp member with same | later
          · cases same
            exact absurd known (by simp [escapable])
          · exact List.mem_append_right _ (ih.mpr ⟨arguments, known, later⟩)

theorem assemble_idle {symbols : Bindings} {found : Layout (Text × Text)}
    (kept : ∀ text arguments, .inr (text, arguments) ∈ found → isEscapable symbols arguments = false)
    (calls : EscapedCalls) (a : Allocator) :
    assemble symbols calls a found = some (write Prod.fst found, calls, a) := by
  induction found with
  | nil => rfl
  | cons item rest ih =>
    have later := ih fun text arguments member => kept text arguments (List.mem_cons_of_mem _ member)
    cases item with
    | inl c => simp [assemble, later]
    | inr found => simp [assemble_kept (kept _ _ List.mem_cons_self), later]

theorem escape_idle {text : Text} {symbols : Bindings} :
    (∀ b, escape text symbols b = some (text, {}, b)) ↔ ∀ call arguments,
      .inr (call, arguments) ∈ Text.pieces EscapedCalls.call 0 none text →
        isEscapable symbols arguments = false := by
  constructor
  · intro idle call arguments member
    have assembled := escape_assembles (idle { draws := fun _ => 0 })
    by_contra escapable
    have place := mem_layout.mpr ⟨arguments, by simpa using escapable, member⟩
    exact absurd (assembled.complete call place) List.not_mem_nil
  · intro kept b
    rw [escape, assemble_idle kept, Text.write_found call_spelled]

theorem not_idle_of_call {symbols : Bindings} {front text arguments rest : Text}
    (called : IsCall text arguments)
    (bounded : Text.atBoundary Text.isWordChar front.getLast? = true)
    (escapable : isEscapable symbols arguments = true) :
    ¬ ∀ b, escape (front ++ (text ++ rest)) symbols b = some (front ++ (text ++ rest), {}, b) := by
  intro idle
  have kept := escape_idle.mp idle
  have missing : ∀ p, .inr p ∉ layout symbols (Text.pieces call 0 none (front ++ (text ++ rest))) := by
    intro p member
    obtain ⟨arguments, known, found⟩ := mem_layout.mp member
    exact absurd known (by simp [kept p arguments found])
  have whole : layout symbols (Text.pieces call 0 none (front ++ (text ++ rest))) =
      front.map .inl ++ (text.map .inl ++ rest.map .inl) := by
    rw [eq_chars_write id missing, write_calls]
    simp
  have begins : Text.atBoundary Text.isWordChar
      (Text.lastOf none (write id (front.map .inl))) = true := by
    simpa [Text.lastOf] using bounded
  exact absurd escapable (by simp [isEscapable_of_chars whole called begins])

abbrev places (source : Text) (symbols : Bindings) : Layout Text :=
  layout symbols (Text.pieces call 0 none source)

section Again

variable {source text : Text} {symbols : Bindings} {a b : Allocator} {calls : EscapedCalls}
  (escaped : escape source symbols a = some (text, calls, b))

include escaped

theorem escape_colored : Colored calls.spelling (places source symbols) := by
  intro p member
  have assembled := escape_assembles escaped
  obtain ⟨entry, listed, rfl⟩ := List.mem_map.mp (assembled.complete p member)
  rw [assembled.recorded.spelling_of_mem listed]
  exact (assembled.recorded.sentinels entry listed).1

/-- A call of the escaped text that could be escaped encloses escaped calls. -/
theorem encloses_of_call {front called arguments left : Text} (whole : text = front ++ (called ++ left))
    (isCall : IsCall called arguments)
    (bounded : Text.atBoundary Text.isWordChar front.getLast? = true)
    (escapable : isEscapable symbols arguments = true) :
    ∃ name start inner rest, Encloses symbols calls (places source symbols) start inner rest name ∧
      write calls.spelling start = front ∧ write calls.spelling inner = arguments := by
  have colored := escape_colored escaped
  obtain ⟨name, listed, rfl, flat⟩ := id isCall
  have opening : write calls.spelling (places source symbols) =
      front ++ (name ++ ("(" : Text) ++ (arguments ++ ')' :: left)) := by
    rw [← (escape_assembles escaped).written, whole]
    simp
  have begins : Text.atBoundary Text.isWordChar (Text.lastOf none front) = true := by
    simpa [Text.lastOf] using bounded
  obtain ⟨start, later, split, before, opened⟩ := split_call colored listed opening begins
  have after : Colored calls.spelling later :=
    fun p member => colored p (split ▸ List.mem_append_right start member)
  obtain ⟨inner, rest, rfl, written⟩ := split_arguments after listed opened
  refine ⟨name, start, inner, rest, ⟨listed, by simpa using split, ?_, ?_, ?_, ?_⟩, before, written⟩
  · rwa [before]
  · intro c member
    exact flat c (written ▸ mem_write member)
  · -- Without an escaped call inside the call would have been found in the source.
    by_contra missing
    have chars := eq_chars_write calls.spelling fun p member => missing ⟨p, member⟩
    rw [written] at chars
    have whole : places source symbols = start ++ ((name ++ ("(" : Text) ++ arguments ++
        (")" : Text)).map .inl ++ rest) := by
      rw [split, chars]
      simp
    have front : Colored calls.spelling start :=
      fun p member => colored p (split ▸ List.mem_append_left _ member)
    have begins : Text.atBoundary Text.isWordChar (Text.lastOf none (write id start)) = true := by
      simpa [Text.lastOf] using bounded_source front (before.symm ▸ bounded)
    exact absurd escapable (by simp [isEscapable_of_chars whole isCall begins])
  · rwa [written]

theorem Encloses.called {start inner rest : Layout Text} {name : Text}
    (encloses : Encloses symbols calls (places source symbols) start inner rest name) :
    IsCall (name ++ "(" ++ write calls.spelling inner ++ ")") (write calls.spelling inner) := by
  refine ⟨name, encloses.listed, rfl, fun c member => ?_⟩
  obtain ⟨item, inside, here⟩ := List.mem_flatMap.mp member
  cases item with
  | inl d => exact List.mem_singleton.mp here ▸ encloses.flat d inside
  | inr p =>
    have member : .inr p ∈ places source symbols := by simp [encloses.whole, inside]
    exact (escape_colored escaped).isFlat member c here

/-- Every call of the escaped text that could be escaped encloses escaped calls, and escaping again
changes nothing and records nothing just if there is none. -/
theorem escape_escape :
    (∀ front here found arguments left, text = front ++ here →
        call front.getLast? here = some ((found, arguments), left) →
        isEscapable symbols arguments = true →
        ∃ name start inner rest,
          Encloses symbols calls (places source symbols) start inner rest name ∧
            write calls.spelling start = front ∧ write calls.spelling inner = arguments) ∧
      ((∀ c, escape text symbols c = some (text, {}, c)) ↔ ¬ ∃ name start inner rest,
        Encloses symbols calls (places source symbols) start inner rest name) := by
  refine ⟨?_, ?_, ?_⟩
  · intro front here found arguments left whole known escapable
    obtain ⟨bounded, isCall, rfl⟩ := call_eq_some.mp known
    exact encloses_of_call escaped whole isCall bounded escapable
  · rintro idle ⟨name, start, inner, rest, encloses⟩
    have whole : text = write calls.spelling start ++ ((name ++ "(" ++
        write calls.spelling inner ++ ")") ++ write calls.spelling rest) := by
      rw [(escape_assembles escaped).written,
        show layout symbols (Text.pieces call 0 none source) = _ from encloses.whole]
      simp
    rw [whole] at idle
    exact not_idle_of_call (encloses.called escaped) encloses.bounded encloses.escapable idle
  · intro apart
    refine escape_idle.mpr fun found arguments member => ?_
    by_contra escapable
    obtain ⟨front, left, whole, known⟩ := Text.place_of_mem_pieces call_spelled member
    obtain ⟨bounded, isCall, _⟩ := call_eq_some.mp known
    obtain ⟨name, start, inner, rest, encloses, _⟩ := encloses_of_call escaped whole isCall
      (by simpa [Text.lastOf] using bounded) (by simpa using escapable)
    exact apart ⟨name, start, inner, rest, encloses⟩

end Again

/-- A call that stands alone, and the same call within one of a function that is not listed. -/
theorem escape_escape_alone :
    let symbols := Bindings.parse "@b: #eee;"
    let text : Text := "#000001 calc(#000001)"
    let calls : EscapedCalls := ⟨[("#000001", "tint(@b, 1%)")]⟩
    (∃ b, escape "tint(@b, 1%) calc(tint(@b, 1%))" symbols { draws := Draws.ofList #[256] } =
        some (text, calls, b)) ∧
      (∀ c, escape text symbols c = some (text, {}, c)) ∧
      ¬ ∃ name start inner rest, Encloses symbols calls
        (places "tint(@b, 1%) calc(tint(@b, 1%))" symbols) start inner rest name := by
  intro symbols text calls
  have found : Text.pieces call 0 none "tint(@b, 1%) calc(tint(@b, 1%))" =
      .inr ("tint(@b, 1%)", "@b, 1%") :: ((" calc(" : Text).map .inl ++
        .inr ("tint(@b, 1%)", "@b, 1%") :: ((")" : Text).map .inl ++ [])) := by
    decide +kernel
  have escaped : ∃ b, escape "tint(@b, 1%) calc(tint(@b, 1%))" symbols
      { draws := Draws.ofList #[256] } = some (text, calls, b) := by
    rw [escape, found,
      assemble_new (by decide +kernel) rfl
        (Allocator.next_first "#000001" (by decide +kernel)), assemble_chars,
      assemble_known "#000001" (by decide +kernel) (by decide +kernel),
      assemble_chars, assemble]
    exact ⟨_, rfl⟩
  obtain ⟨b, escaped⟩ := escaped
  have plain : Text.pieces call 0 none text = text.map .inl ++ [] := by decide +kernel
  have idle : ∀ c, escape text symbols c = some (text, {}, c) := fun c => by
    rw [escape, plain, assemble_chars]
    rfl
  exact ⟨⟨b, escaped⟩, idle, (escape_escape escaped).2.mp idle⟩

/-- A call around an escaped one is left in the escaped text. -/
theorem escape_escape_enclosed :
    ¬ ∀ (source text : Text) (symbols : Bindings) (a b : Allocator) (calls : EscapedCalls),
      escape source symbols a = some (text, calls, b) →
        ∀ c, escape text symbols c = some (text, {}, c) := by
  intro idle
  let symbols := Bindings.parse "@a: #fff; @b: #eee;"
  have found : Text.pieces call 0 none "mix(@a, tint(@b, 1%))" =
      ("mix(@a, " : Text).map .inl ++
        .inr ("tint(@b, 1%)", "@b, 1%") :: ((")" : Text).map .inl ++ []) := by
    decide +kernel
  have escaped : ∃ calls b, escape "mix(@a, tint(@b, 1%))" symbols { draws := Draws.ofList #[256] } =
      some (("mix(@a, #000001)" : Text), calls, b) := by
    rw [escape, found, assemble_chars,
      assemble_new (by decide +kernel) rfl
        (Allocator.next_first "#000001" (by decide +kernel)), assemble_chars, assemble]
    exact ⟨_, _, rfl⟩
  obtain ⟨calls, b, escaped⟩ := escaped
  have again : Text.pieces call 0 none "mix(@a, #000001)" =
      [.inr (("mix(@a, #000001)" : Text), ("@a, #000001" : Text))] := by
    decide +kernel
  have kept := escape_idle.mp (idle _ _ _ _ _ _ escaped) _ _ (again ▸ List.mem_singleton_self _)
  revert kept
  decide +kernel

end ColorTheme.EscapedCalls
