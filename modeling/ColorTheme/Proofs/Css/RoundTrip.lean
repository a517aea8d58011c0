import ColorTheme.Proofs.Css.Kept
import ColorTheme.Proofs.Css.Reduction

/-!
Writing a sheet and reading it again. The parts into which an orderly sheet is taken apart are
kept as texts that are read as the same parts, so the nodes are legible, whatever they are. -/
namespace ColorTheme.Css

namespace Token

theorem splitOutside_append_eq_nil {stop : Token → Bool} {nesting : List Bracket}
    {front back : List Token} : (splitOutside stop nesting (front ++ back)).2 = [] ↔
      (splitOutside stop nesting front).2 = [] ∧
        (splitOutside stop (nestAll front nesting) back).2 = [] := by
  induction front generalizing nesting with
  | nil => simp [splitOutside, nestAll]
  | cons t front ih =>
    rw [List.cons_append, splitOutside, splitOutside]
    split
    · simp
    · exact ih

theorem splitOutside_spec {stop : Token → Bool} {nesting : List Bracket}
    {ts front back : List Token} (split : splitOutside stop nesting ts = (front, back)) :
    ts = front ++ back ∧ (splitOutside stop nesting front).2 = [] ∧
      (back = [] ∨ ∃ s rest, back = s :: rest ∧ stop s = true ∧ nestAll front nesting = []) := by
  induction ts generalizing nesting front with
  | nil =>
    obtain ⟨rfl, rfl⟩ := Prod.mk.inj split
    exact ⟨rfl, rfl, .inl rfl⟩
  | cons t ts ih =>
    rw [splitOutside] at split
    split at split
    · rename_i stops
      obtain ⟨rfl, rfl⟩ := Prod.mk.inj split
      rw [Bool.and_eq_true, List.isEmpty_iff] at stops
      exact ⟨rfl, rfl, .inr ⟨t, ts, rfl, stops.2, stops.1⟩⟩
    · rename_i goes
      obtain ⟨rfl, same⟩ := Prod.mk.inj split
      obtain ⟨whole, passed, last⟩ := ih (Prod.ext rfl same)
      refine ⟨by rw [List.cons_append, ← whole], ?_, last⟩
      rw [splitOutside, if_neg goes]
      exact passed

/-- Inside a block the block itself is of no account, up to the bracket that closes it. -/
theorem nest_append {t : Token} {nesting : List Bracket}
    (inside : nesting = [] → t.closesBlock = false) :
    t.nest (nesting ++ [.curly]) = t.nest nesting ++ [.curly] := by
  unfold nest
  cases t.opens? with
  | some bracket => rfl
  | none =>
    cases known : t.closes? with
    | none => rfl
    | some bracket =>
      cases nesting with
      | cons innermost outer =>
        by_cases same : bracket = innermost
        · simp [same]
        · simp [same]
      | nil =>
        have other : bracket ≠ .curly := by
          rintro rfl
          unfold closes? at known
          split at known
          · rename_i kind
            cases known
            simpa [closesBlock, kind] using inside rfl
          · contradiction
        simp [other]

/-- A block that is closed somewhere is closed by the first curly bracket outside all others. -/
theorem splitOutside_block (nesting : List Bracket) {ts : List Token}
    (closed : nestAll ts (nesting ++ [.curly]) = []) : ∃ inside s rest,
      splitOutside closesBlock nesting ts = (inside, s :: rest) ∧ s.closesBlock = true ∧
        nestAll inside nesting = [] ∧ nestAll (inside ++ [s]) (nesting ++ [.curly]) = [] := by
  -- `nesting` holds the brackets that are open inside the block.
  induction ts generalizing nesting with
  | nil => simp [nestAll] at closed
  | cons t ts ih =>
    rw [splitOutside]
    split
    · rename_i stops
      rw [Bool.and_eq_true, List.isEmpty_iff] at stops
      obtain ⟨rfl, closes⟩ := stops
      refine ⟨[], t, ts, rfl, closes, rfl, ?_⟩
      have kind : t.kind = .closing .curly := by simpa [closesBlock] using closes
      simp [nestAll, nest, opens?, closes?, kind]
    · rename_i goes
      have outer : t.nest (nesting ++ [.curly]) = t.nest nesting ++ [.curly] :=
        nest_append (by simpa using goes)
      obtain ⟨inside, s, rest, split, closes, inner, whole⟩ := ih (t.nest nesting)
        (by rw [← outer]; exact closed)
      refine ⟨t :: inside, s, rest, by rw [split], closes, inner, ?_⟩
      rw [← outer] at whole
      exact whole

/-- Tokens that were read in front of `u` and are an orderly part of a sheet. -/
structure Settled (ends : Token → Bool) (ts : List Token) (u : Text) : Prop where
  scanned : Scanned ts u
  orderly : Orderly ts
  part : Part ends ts
  halts : Halts u

theorem loose_of_endsPrelude {t : Token} (ends : t.endsPrelude = true) : t.isLoose = true := by
  simp only [endsPrelude, Bool.or_eq_true] at ends
  rcases ends with known | known
  · simp [isLoose, known]
  · simp [isLoose, known]

theorem isBlank_of_sign {t : Token}
    (sign : (t.isSemicolon || t.opensBlock || t.closesBlock) = true) : t.isBlank = false := by
  simp only [isSemicolon, opensBlock, closesBlock, Bool.or_eq_true, decide_eq_true_eq] at sign
  rcases sign with (kind | kind) | kind
  · simp [isBlank, kind]
  · simp [isBlank, kind]
  · simp [isBlank, kind]

namespace Settled

variable {ends stop : Token → Bool} {front back ts : List Token} {u : Text}

theorem nil (halts : Halts u) : Settled ends [] u :=
  ⟨rfl, ⟨nofun, rfl, by simp [bare, source]⟩, .nil, halts⟩

theorem drop (front : List Token) (settled : Settled ends (front ++ back) u)
    (level : nestAll front [] = []) : Settled ends back u where
  scanned := settled.scanned.drop
  orderly := settled.orderly.drop
  part := by
    have passed := (splitOutside_append_eq_nil.mp settled.part.passed).2
    have closed := settled.part.closed
    rw [level] at passed
    rw [nestAll_append, level] at closed
    exact ⟨passed, closed⟩
  halts := settled.halts

theorem tail {t : Token} (settled : Settled ends (t :: ts) u) (level : t.nest [] = []) :
    Settled ends ts u := settled.drop [t] level

theorem halts_back (settled : Settled ends (front ++ back) u)
    (last : back = [] ∨ ∃ s rest, back = s :: rest ∧ s.isLoose = true) :
    Halts (source back ++ u) := by
  rcases last with rfl | ⟨s, rest, rfl, loose⟩
  · exact settled.halts
  · obtain ⟨tail, found⟩ := next?_of_mem settled.scanned.drop s List.mem_cons_self
    obtain ⟨c, x, text, known⟩ := loose_starts loose (next?_shape found) (next?_covers found).1
    rw [source_cons, text]
    exact halts_of_break known _

/-- What stands in front of the first token outside all brackets that ends a part is one. -/
theorem before (settled : Settled ends ts u) (loose : ∀ t, stop t = true → t.isLoose = true)
    (split : splitOutside stop [] ts = (front, back)) :
    Settled stop front (source back ++ u) := by
  obtain ⟨rfl, passed, last⟩ := splitOutside_spec split
  refine ⟨settled.scanned.take, settled.orderly.take, ⟨passed, ?_⟩, ?_⟩
  · rcases last with rfl | ⟨_, _, _, _, level⟩
    · simpa using settled.part.closed
    · exact level
  · refine settled.halts_back (last.imp id ?_)
    rintro ⟨s, rest, same, stops, _⟩
    exact ⟨s, rest, same, loose s stops⟩

theorem kept (settled : Settled ends ts u) (solid : ∀ t, ends t = true → t.isBlank = false)
    (pre post : Text) (stop : Char) (before : ∀ c ∈ pre, isSpace c = true)
    (after : ∀ c ∈ post, isSpace c = true) (mark : stop ∈ [';', '{', '}']) : ∃ js,
      Kept ends (pre ++ content ts ++ post) stop (content ts) js ∧
        (pre = [] → ∀ t ∈ ts.head?, t.isBlank = false → js.head? = some t) :=
  settled.orderly.kept settled.scanned settled.part settled.halts solid pre post stop before after
    mark

theorem nest_of_opensBlock {brace : Token} (opens : brace.opensBlock = true) :
    brace.nest [] = [.curly] := by
  have kind : brace.kind = .opening .curly := by simpa [opensBlock] using opens
  simp [nest, opens?, kind]

theorem nest_of_isSemicolon {t : Token} (semicolon : t.isSemicolon = true) : t.nest [] = [] := by
  have kind : t.kind = .semicolon := by simpa [isSemicolon] using semicolon
  simp [nest, opens?, closes?, kind]

/-- A block is a part, and what follows it goes on outside. -/
theorem block {brace : Token} (settled : Settled ends (front ++ brace :: back) u)
    (level : nestAll front [] = []) (opens : brace.opensBlock = true) :
    (∃ v, Settled closesBlock (splitBlock back).1 v) ∧ Settled ends (splitBlock back).2 u := by
  have closed := settled.part.closed
  rw [nestAll_append, level, nestAll, List.foldl_cons, nest_of_opensBlock opens] at closed
  obtain ⟨inside, s, rest, split, closes, inner, outer⟩ := splitOutside_block [] closed
  obtain ⟨rfl, passed, _⟩ := splitOutside_spec split
  have parts : splitBlock (inside ++ s :: rest) = (inside, rest) := by simp [splitBlock, split]
  have before : front ++ brace :: (inside ++ s :: rest) =
      front ++ [brace] ++ (inside ++ s :: rest) := by simp
  have whole : front ++ brace :: (inside ++ s :: rest) =
      front ++ brace :: inside ++ s :: rest := by simp
  have after : front ++ brace :: (inside ++ s :: rest) =
      front ++ brace :: (inside ++ [s]) ++ rest := by simp
  rw [parts]
  refine ⟨⟨source (s :: rest) ++ u, ?_, ?_, ⟨passed, inner⟩, ?_⟩, ?_⟩
  · rw [before] at settled
    exact settled.scanned.drop.take
  · rw [before] at settled
    exact settled.orderly.drop.take
  · rw [whole] at settled
    exact settled.halts_back (.inr ⟨s, rest, rfl, by simp [isLoose, closes]⟩)
  · rw [after] at settled
    refine settled.drop _ ?_
    rw [nestAll_append, level, nestAll, List.foldl_cons, nest_of_opensBlock opens]
    exact outer

theorem skipStatement (settled : Settled ends ts u) : Settled ends (skipStatement ts) u := by
  unfold Token.skipStatement
  generalize split : splitOutside endsPrelude [] ts = parts
  obtain ⟨front, back⟩ := parts
  obtain ⟨rfl, _, last⟩ := splitOutside_spec split
  rcases last with rfl | ⟨s, rest, rfl, stops, level⟩
  · exact .nil settled.halts
  · dsimp only
    split
    · rename_i opens
      exact (settled.block level opens).2
    · rename_i other
      have semicolon : s.isSemicolon = true := by simpa [endsPrelude, other] using stops
      refine Settled.drop (front ++ [s]) (by simpa using settled) ?_
      rw [nestAll_append, level]
      exact nest_of_isSemicolon semicolon

end Settled

theorem splitOutside_never (nesting : List Bracket) (ts : List Token) :
    (splitOutside (fun _ => false) nesting ts).2 = [] := by
  induction ts generalizing nesting with
  | nil => rfl
  | cons t ts ih =>
    rw [splitOutside, if_neg (by simp)]
    exact ih (t.nest nesting)

theorem splitOutside_or {p q : Token → Bool} {nesting : List Bracket} {ts : List Token}
    (one : (splitOutside p nesting ts).2 = []) (two : (splitOutside q nesting ts).2 = []) :
    (splitOutside (fun t => p t || q t) nesting ts).2 = [] := by
  induction ts generalizing nesting with
  | nil => rfl
  | cons t ts ih =>
    rw [splitOutside] at one two ⊢
    split at one
    · simp at one
    · rename_i first
      split at two
      · simp at two
      · rename_i second
        rw [if_neg]
        · exact ih one two
        · cases nesting with
          | nil => simp_all
          | cons => simp

end Token

theorem Declaration.ofTokens?_eq_some {t : Token} {ts : List Token} {d : Declaration}
    (read : Declaration.ofTokens? (t :: ts) = some d) : ∃ blanks colon value,
      t.kind = .ident d.property ∧ ts = blanks ++ colon :: value ∧
        (∀ b ∈ blanks, b.isBlank = true) ∧ colon.kind = .colon ∧ d.value = Token.content value := by
  have whole : ts.takeWhile Token.isBlank ++ ts.dropWhile Token.isBlank = ts :=
    List.takeWhile_append_dropWhile
  unfold Declaration.ofTokens? at read
  dsimp only at read
  split at read
  · rename_i property colon value kind known
    split at read
    · rename_i sign
      cases read
      rw [known] at whole
      exact ⟨_, colon, value, kind, whole.symm, fun _ => List.mem_takeWhile_imp, sign, rfl⟩
    · contradiction
  · contradiction

open Token

theorem Declaration.legible {t : Token} {front back : List Token} {u : Text} {d : Declaration}
    (settled : Settled closesBlock (t :: front ++ back) u)
    (split : splitOutside isSemicolon (t.nest []) (front ++ back) = (front, back))
    (read : Declaration.ofTokens? (t :: front) = some d) (named : Spelled d.property) :
    d.Legible := by
  obtain ⟨blanks, colon, value, name, rfl, blank, sign, kept⟩ := Declaration.ofTokens?_eq_some read
  have flat : t.nest [] = [] := by simp [nest, opens?, closes?, name]
  have level : nestAll (blanks ++ [colon]) [] = [] := by
    rw [nestAll_append, nestAll_blank blank]
    simp [nestAll, nest, opens?, closes?, sign]
  have inside : Settled closesBlock (value ++ back) u := by
    refine Settled.drop (t :: (blanks ++ [colon])) (by simpa using settled) ?_
    rw [nestAll, List.foldl_cons, flat]
    exact level
  rw [flat] at split
  obtain ⟨_, passed, last⟩ := splitOutside_spec split
  rw [← List.singleton_append, ← List.append_assoc, splitOutside_append_eq_nil, level] at passed
  have closed : nestAll value [] = [] := by
    rcases last with rfl | ⟨_, _, _, _, same⟩
    · simpa using inside.part.closed
    · rw [← List.singleton_append, ← List.append_assoc, nestAll_append, level] at same
      exact same
  -- The value was read up to a semicolon, inside a block.
  have ends : Part endsValue value :=
    ⟨splitOutside_or passed.2 (splitOutside_append_eq_nil.mp inside.part.passed).1, closed⟩
  have halts : Halts (source back ++ u) := by
    refine inside.halts_back (last.imp id ?_)
    rintro ⟨s, rest, same, stops, _⟩
    exact ⟨s, rest, same, by simp [isLoose, stops]⟩
  have whole : Settled endsValue value (source back ++ u) :=
    ⟨inside.scanned.take, inside.orderly.take, ends, halts⟩
  have solid : ∀ s, endsValue s = true → s.isBlank = false := by
    intro s stops
    refine isBlank_of_sign ?_
    simp only [endsValue, Bool.or_eq_true] at stops ⊢
    exact stops.imp .inl id
  obtain ⟨js, again, _⟩ := whole.kept solid [' '] [] ';' (by simp [isSpace])
    (List.forall_mem_nil _) (by decide)
  exact ⟨named, js, by simpa [kept] using again⟩

theorem Declaration.legible_of_tokens {ts : List Token} {u : Text}
    (settled : Settled closesBlock ts u) :
    ∀ d ∈ Declaration.listOfTokens ts, Spelled d.property → d.Legible := by
  induction ts using Declaration.listOfTokens.induct with
  | case1 =>
    rw [Declaration.listOfTokens]
    exact List.forall_mem_nil _
  | case2 t rest skipped ih =>
    rw [Declaration.listOfTokens, if_pos skipped]
    have level : t.nest [] = [] := by
      rcases Bool.or_eq_true_iff.mp skipped with blank | semicolon
      · exact nest_of_isBlank blank []
      · exact Settled.nest_of_isSemicolon semicolon
    exact ih (settled.tail level)
  | case3 t rest kept name kind bound ih =>
    have level : t.nest [] = [] := by simp [nest, opens?, closes?, kind]
    rw [Declaration.listOfTokens, if_neg kept]
    simp only [kind]
    exact ih (settled.tail level).skipStatement
  | case4 t rest kept parts bound other ih =>
    have split : splitOutside isSemicolon (t.nest []) rest = (parts.1, parts.2) := rfl
    obtain ⟨whole, _, last⟩ := splitOutside_spec split
    -- The declaration ends at a semicolon, or the block ends with it.
    have further : Settled closesBlock parts.2.tail u := by
      rcases last with empty | ⟨s, more, same, stops, level⟩
      · rw [empty]
        exact .nil settled.halts
      · rw [whole, same] at settled
        rw [same]
        refine Settled.drop (t :: (parts.1 ++ [s])) (by simpa using settled) ?_
        rw [nestAll, List.foldl_cons, ← nestAll, nestAll_append, level]
        exact Settled.nest_of_isSemicolon stops
    intro d member named
    rw [Declaration.listOfTokens, if_neg kept] at member
    split at member
    · rename_i name kind
      exact (other name kind).elim
    · rcases List.mem_append.mp member with here | later
      · rw [whole] at settled split
        exact Declaration.legible settled split (Option.mem_toList.mp here) named
      · exact ih further d later named

theorem Token.isBlank_of_startsRule {t : Token} (starts : t.startsRule) : t.isBlank = false := by
  have other := starts.1
  simp only [isFiller, Bool.or_eq_false_iff] at other
  exact other.1.1

/-- Legible if its names need no escapes; a rule also with some of its declarations alone. -/
def Node.Readable : Node → Prop
  | .rule r => ∀ kept, kept ⊆ r.declarations → (∀ d ∈ kept, Spelled d.property) →
      Rule.Legible ⟨r.selector, kept⟩
  | .atRule r => Spelled r.name → r.Legible

theorem Rule.readable {ends : Token → Bool} {t : Token} {rest more : List Token} {u : Text}
    {node : Node} (settled : Settled ends (t :: rest) u) (starts : t.startsRule)
    (step : Rule.step (t :: rest) = .node node more) : node.Readable ∧ Settled ends more u := by
  unfold Rule.step at step
  generalize split : splitOutside opensBlock [] (t :: rest) = parts at step
  obtain ⟨prelude, back⟩ := parts
  have before := settled.before (fun s opens => by simp [isLoose, opens]) split
  obtain ⟨whole, _, last⟩ := splitOutside_spec split
  rcases last with rfl | ⟨brace, back, rfl, opens, level⟩
  · simp at step
  · dsimp only at step
    split at step
    · contradiction
    · rename_i filled
      rw [whole] at settled
      obtain ⟨⟨v, inside⟩, further⟩ := settled.block level opens
      simp only [Step.node.injEq] at step
      obtain ⟨rfl, rfl⟩ := step
      refine ⟨fun kept legible named => ⟨by simpa using filled, ?_, fun d member => ?_⟩, further⟩
      · obtain ⟨js, again, head⟩ := before.kept (fun s opens => isBlank_of_sign (by simp [opens]))
          [] [' '] '{' (List.forall_mem_nil _) (by simp [isSpace]) (by decide)
        -- The prelude begins with `t`, or its content would be empty.
        have first : prelude.head? = some t := by
          cases prelude with
          | nil => exact absurd rfl filled
          | cons s prelude =>
            obtain ⟨rfl, _⟩ := List.cons.inj whole
            rfl
        have solid := isBlank_of_startsRule starts
        obtain ⟨js, rfl⟩ := List.head?_eq_some_iff.mp (head rfl t first solid)
        exact ⟨t, js, again, starts⟩
      · exact Declaration.legible_of_tokens inside d (legible member) (named d member)

theorem AtRule.kept_prelude {ts : List Token} {u : Text} (settled : Settled endsPrelude ts u)
    (name : Text) (block : Option Text) : ∃ js,
      Kept endsPrelude (AtRule.head ⟨name, content ts, block⟩)
        (AtRule.stop ⟨name, content ts, block⟩) (content ts) js := by
  obtain ⟨before, spaces, front⟩ : ∃ before : Text, (∀ c ∈ before, isSpace c = true) ∧
      (if (content ts).isEmpty then [] else ' ' :: content ts) = before ++ content ts := by
    cases empty : (content ts).isEmpty with
    | true => exact ⟨[], List.forall_mem_nil _, by simp [List.isEmpty_iff.mp empty]⟩
    | false => exact ⟨[' '], by simp [isSpace], rfl⟩
  have solid : ∀ t, endsPrelude t = true → t.isBlank = false := by
    intro t ends
    refine isBlank_of_sign ?_
    simp only [endsPrelude, Bool.or_eq_true] at ends ⊢
    exact .inl ends
  simp only [AtRule.head, AtRule.stop, front]
  cases block with
  | none =>
    obtain ⟨js, again, _⟩ := settled.kept solid before [] ';' spaces (List.forall_mem_nil _)
      (by decide)
    exact ⟨js, again⟩
  | some block =>
    obtain ⟨js, again, _⟩ := settled.kept solid before [' '] '{' spaces (by simp [isSpace])
      (by decide)
    exact ⟨js, again⟩

theorem AtRule.readable {ends : Token → Bool} {name : Text} {ts more : List Token} {u : Text}
    {node : Node} (settled : Settled ends ts u) (step : AtRule.step name ts = .node node more) :
    node.Readable ∧ Settled ends more u := by
  have skipped := settled.skipStatement
  unfold AtRule.step at step
  generalize split : splitOutside endsPrelude [] ts = parts at step
  obtain ⟨prelude, back⟩ := parts
  have before := settled.before (fun _ => loose_of_endsPrelude) split
  obtain ⟨rfl, _, last⟩ := splitOutside_spec split
  rcases last with rfl | ⟨s, back, rfl, stops, level⟩
  · simp only [Step.node.injEq] at step
    obtain ⟨rfl, rfl⟩ := step
    exact ⟨fun named => ⟨named, AtRule.kept_prelude before name none, by simp⟩, .nil settled.halts⟩
  · simp only [Token.skipStatement, split] at skipped
    dsimp only at step
    split at step
    · rename_i opens
      rw [if_pos opens] at skipped
      obtain ⟨⟨v, inside⟩, _⟩ := settled.block level opens
      simp only [Step.node.injEq] at step
      obtain ⟨rfl, rfl⟩ := step
      refine ⟨fun named => ⟨named, AtRule.kept_prelude before name (some _), ?_⟩, skipped⟩
      rintro block ⟨⟩
      obtain ⟨js, again, _⟩ := inside.kept (fun s closes => isBlank_of_sign (by simp [closes]))
        ['\n'] ['\n'] '}' (by simp [isSpace, isNewline]) (by simp [isSpace, isNewline]) (by decide)
      exact ⟨js, again⟩
    · rename_i other
      rw [if_neg other] at skipped
      simp only [Step.node.injEq] at step
      obtain ⟨rfl, rfl⟩ := step
      exact ⟨fun named => ⟨named, AtRule.kept_prelude before name none, by simp⟩, skipped⟩

theorem Token.nest_of_isFiller {t : Token} (filler : t.isFiller = true) (nesting : List Bracket) :
    t.nest nesting = nesting := by
  simp only [isFiller, Bool.or_eq_true, decide_eq_true_eq] at filler
  rcases filler with (blank | opener) | closer
  · exact nest_of_isBlank blank nesting
  · simp [nest, opens?, closes?, opener]
  · simp [nest, opens?, closes?, closer]

theorem Node.step_readable {ends : Token → Bool} (isFirst : Bool) {t : Token} {rest : List Token}
    {u : Text} (settled : Settled ends (t :: rest) u) (item : t.isFiller = false) :
    (∀ more, Node.step isFirst t rest = .skipped more → Settled ends more u) ∧
      ∀ node more, Node.step isFirst t rest = .node node more →
        node.Readable ∧ Settled ends more u := by
  unfold Node.step
  split
  · rename_i name kind
    have level : t.nest [] = [] := by simp [nest, opens?, closes?, kind]
    have further : Settled ends rest u := settled.tail level
    split
    · refine ⟨fun more step => ?_, fun node more step => by contradiction⟩
      cases step
      exact further.skipStatement
    · refine ⟨fun more step => ?_, fun node more step => AtRule.readable further step⟩
      unfold AtRule.step at step
      dsimp only at step
      split at step
      · contradiction
      · split at step
        · contradiction
        · contradiction
  · rename_i other
    refine ⟨fun more step => ?_, fun node more step => Rule.readable settled ⟨item, other⟩ step⟩
    unfold Rule.step at step
    dsimp only at step
    split at step
    · contradiction
    · split at step
      · contradiction
      · contradiction

/-- What an orderly sheet is read as is legible up to its names. -/
theorem Sheet.readable {ends : Token → Bool} {isFirst : Bool} {ts : List Token} {u : Text}
    {sheet : Sheet} (settled : Settled ends ts u) (read : Sheet.ofTokens isFirst ts = .ok sheet) :
    ∀ node ∈ sheet, node.Readable := by
  -- On the number of tokens that are left: every step leaves fewer, and they are still settled.
  induction measured : ts.length using Nat.strongRecOn generalizing ts isFirst sheet with
  | ind size ih =>
    cases ts with
    | nil =>
      rw [Sheet.ofTokens] at read
      cases read
      exact List.forall_mem_nil _
    | cons t rest =>
      have shorter {more : List Token} (bound : more.length ≤ rest.length) :
          more.length < size := by
        rw [← measured, List.length_cons]
        omega
      cases item : t.isFiller with
      | true =>
        rw [Sheet.ofTokens_filler item] at read
        have further : Settled ends rest u := settled.tail (Token.nest_of_isFiller item [])
        exact ih rest.length (shorter le_rfl) further read rfl
      | false =>
        rw [Sheet.ofTokens_item item] at read
        have bound := Node.step_length isFirst t rest
        obtain ⟨skips, reads⟩ := Node.step_readable isFirst settled item
        cases step : Node.step isFirst t rest with
        | stopped stop =>
          rw [step] at read
          contradiction
        | skipped more =>
          rw [step] at read bound
          exact ih more.length (shorter bound) (skips more step) read rfl
        | node node more =>
          rw [step] at read bound
          obtain ⟨readable, further⟩ := reads node more step
          cases found : Sheet.ofTokens false more with
          | error stop => simp [found, Except.map] at read
          | ok others =>
            simp only [found, Except.map, Except.ok.injEq] at read
            subst read
            rintro one (_ | ⟨_, member⟩)
            · exact readable
            · exact ih more.length (shorter bound) further found rfl one member

/-- The names that the node writes need no escapes. -/
def Node.NamesSpelled : Node → Prop
  | .rule r => ∀ d ∈ r.declarations, Spelled d.property
  | .atRule r => Spelled r.name

instance : DecidablePred Node.NamesSpelled
  | .rule r => inferInstanceAs (Decidable (∀ d ∈ r.declarations, Spelled d.property))
  | .atRule r => inferInstanceAs (Decidable (Spelled r.name))

theorem Node.Readable.legible {node : Node} (readable : node.Readable)
    (named : node.NamesSpelled) : node.Legible := by
  cases node with
  | rule r => exact readable r.declarations (List.Subset.refl _) named
  | atRule r => exact readable named

theorem Rule.reduce?_eq_some {r reduced : Rule} (kept : r.reduce? = some reduced) :
    Text.startsWith palettePrefix r.selector = false ∧
      reduced = r.filterDeclarations Declaration.bearsColor ∧ reduced.declarations ≠ [] := by
  unfold Rule.reduce? at kept
  split at kept
  · contradiction
  · rename_i palette
    dsimp only at kept
    split at kept
    · contradiction
    · rename_i filled
      cases kept
      exact ⟨by simpa using palette, rfl, by simpa using filled⟩

theorem Rule.reduce?_reduced {r reduced : Rule} (kept : r.reduce? = some reduced) :
    reduced.reduce? = some reduced := by
  obtain ⟨palette, rfl, filled⟩ := Rule.reduce?_eq_some kept
  have again : (r.filterDeclarations Declaration.bearsColor).filterDeclarations
      Declaration.bearsColor = r.filterDeclarations Declaration.bearsColor := by
    simp [Rule.filterDeclarations]
  have other : ¬Text.startsWith palettePrefix
      (r.filterDeclarations Declaration.bearsColor).selector = true := by
    simpa [Rule.filterDeclarations] using palette
  simp [Rule.reduce?, again, other, filled]

theorem Sheet.mem_reduce {sheet : Sheet} {node : Node} (member : node ∈ sheet.reduce) :
    ∃ r reduced, .rule r ∈ sheet ∧ r.reduce? = some reduced ∧ node = .rule reduced := by
  rw [Sheet.reduce_eq] at member
  obtain ⟨reduced, kept, rfl⟩ := List.mem_map.mp member
  obtain ⟨r, rule, kept⟩ := List.mem_filterMap.mp kept
  obtain ⟨node, here, same⟩ := List.mem_filterMap.mp rule
  cases node with
  | rule _ =>
    cases same
    exact ⟨r, reduced, here, kept, rfl⟩
  | atRule _ => contradiction

theorem Sheet.reduce_reduce (sheet : Sheet) : sheet.reduce.reduce = sheet.reduce := by
  rw [Sheet.reduce_eq sheet, Sheet.reduce_rules, List.filterMap_filterMap]
  congr 1
  refine List.filterMap_congr fun r _ => ?_
  cases kept : r.reduce? with
  | none => rfl
  | some reduced => exact Rule.reduce?_reduced kept

theorem Sheet.setsCharset_reduce (sheet : Sheet) : sheet.reduce.setsCharset = false := by
  rw [Sheet.reduce_eq]
  cases sheet.rules.filterMap Rule.reduce? with
  | nil => rfl
  | cons r rules => rfl

/-- Reduction keeps rules with some of their declarations, which are as readable. -/
theorem Sheet.reduce_legible {sheet : Sheet} (readable : ∀ node ∈ sheet, node.Readable)
    (named : ∀ node ∈ sheet.reduce, node.NamesSpelled) : ∀ node ∈ sheet.reduce, node.Legible := by
  intro node member
  obtain ⟨r, reduced, rule, kept, rfl⟩ := Sheet.mem_reduce member
  obtain ⟨_, rfl, _⟩ := Rule.reduce?_eq_some kept
  exact readable _ rule _ (List.filter_subset_self _) (named _ member)

theorem Sheet.ofTokens_scan_render {sheet : Sheet} (legible : ∀ node ∈ sheet, node.Legible)
    (charset : sheet.setsCharset = false) :
    Sheet.ofTokens true (Token.scan sheet.render) = .ok sheet := by
  have written : ∀ node ∈ sheet, Node.Written (id node) node.render :=
    fun node member => (legible node member).written
  have read := Sheet.parse_written written (by rwa [List.map_id])
  rw [List.map_id] at read
  exact Sheet.parse_eq_ok.mp read

/-- Writing an orderly sheet and reading it again gives the same sheet, if no name needs an
escape and no character set rule comes first; reducing it twice is the same as once. -/
theorem Sheet.parse_render {css : Text} {sheet : Sheet} (read : Sheet.parse css = .ok sheet)
    (closed : Token.nestAll (Token.scan css) [] = []) (orderly : Token.Orderly (Token.scan css)) :
    ((∀ node ∈ sheet, node.NamesSpelled) → sheet.setsCharset = false →
      Sheet.parse sheet.render = .ok sheet) ∧
    ((∀ node ∈ sheet.reduce, node.NamesSpelled) → ∃ reduced,
      reduceToColors css = .ok reduced ∧ reduceToColors reduced = .ok reduced) := by
  rw [Sheet.parse_eq_ok] at read
  have settled : Token.Settled (fun _ => false) (Token.scan css) [] := by
    refine ⟨?_, orderly, ⟨?_, closed⟩, rfl⟩
    · rw [Token.Scanned, Token.source_scan, scan_nil, List.append_nil, List.append_nil]
    · exact Token.splitOutside_never [] _
  have readable := Sheet.readable settled read
  constructor
  · intro named charset
    have legible : ∀ node ∈ sheet, node.Legible := fun node member =>
      (readable node member).legible (named node member)
    exact Sheet.parse_eq_ok.mpr (Sheet.ofTokens_scan_render legible charset)
  · intro named
    have again := Sheet.ofTokens_scan_render (Sheet.reduce_legible readable named)
      sheet.setsCharset_reduce
    refine ⟨sheet.reduce.render, reduceToColors_eq_ok.mpr ⟨sheet, read, rfl⟩, ?_⟩
    exact reduceToColors_eq_ok.mpr ⟨sheet.reduce, again, by rw [Sheet.reduce_reduce]⟩

/-- Comments in many places, at-rules with and without a block, and brackets in strings. -/
def sampleSource : Text :=
  "/* a */ @import \"b;c\";\n<!-- @media print \x7b .a \x7b color: red \x7d /**/ \x7d\n" ++
  ".b\\:c > [d=\"\x7b\"], p /**/ \x7b color : rgb(0, 0, 0) /**/; broken; --x: url(y) \x7d -->"

def sampleNodes : Sheet := [
  .atRule ⟨"import", "\"b;c\"", none⟩,
  .atRule ⟨"media", "print", some ".a \x7b color: red \x7d"⟩,
  .rule ⟨".b\\:c > [d=\"\x7b\"], p", [⟨"color", "rgb(0, 0, 0)"⟩, ⟨"--x", "url(y)"⟩]⟩]

theorem Sheet.parse_render_sample : Sheet.parse sampleSource = .ok sampleNodes ∧
    Token.nestAll (Token.scan sampleSource) [] = [] ∧ Token.Orderly (Token.scan sampleSource) ∧
    (∀ node ∈ sampleNodes, node.NamesSpelled) ∧ sampleNodes.setsCharset = false ∧
    (∀ node ∈ sampleNodes.reduce, node.NamesSpelled) ∧
    Sheet.parse sampleNodes.render = .ok sampleNodes ∧ ∃ reduced,
      reduceToColors sampleSource = .ok reduced ∧ reduceToColors reduced = .ok reduced := by
  have read : Sheet.parse sampleSource = .ok sampleNodes := by decide +kernel
  have closed : Token.nestAll (Token.scan sampleSource) [] = [] := by decide +kernel
  have orderly : Token.Orderly (Token.scan sampleSource) :=
    ⟨by decide +kernel, by decide +kernel, by decide +kernel⟩
  have named : ∀ node ∈ sampleNodes, node.NamesSpelled := by decide +kernel
  have charset : sampleNodes.setsCharset = false := by decide
  have reduced : ∀ node ∈ sampleNodes.reduce, node.NamesSpelled := by decide +kernel
  have again := Sheet.parse_render read closed orderly
  exact ⟨read, closed, orderly, named, charset, reduced, again.1 named charset, again.2 reduced⟩

/-- A string that holds `/*` is cut off there, so that it runs on when it is read again; a
name that holds a colon is written as it is, so that it ends at the colon. -/
theorem Sheet.parse_render_changed :
    (∃ sheet, Sheet.parse ".a::after \x7b content: \"/*\"; color: red; \x7d" = .ok sheet ∧
      Sheet.parse sheet.render ≠ .ok sheet) ∧
    ∃ reduced, reduceToColors ".a \x7b color\\3a b: red; \x7d" = .ok reduced ∧
      reduceToColors reduced ≠ .ok reduced := by
  refine ⟨⟨[.rule ⟨".a::after", [⟨"content", "\""⟩, ⟨"color", "red"⟩]⟩], ?_, ?_⟩, ?_⟩
  · decide +kernel
  · decide +kernel
  · refine ⟨".a \x7b\n  color:b: red;\n\x7d\n", ?_, ?_⟩
    · decide +kernel
    · decide +kernel

end ColorTheme.Css
