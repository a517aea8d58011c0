import ColorTheme.Probe
import ColorTheme.Proofs.Sentinel
import ColorTheme.Proofs.Symbol
import ColorTheme.Proofs.Text.Run

/-!
The probe read back. The rules of the variables, as the compiler lays them out, are scanned for
the variables. The scan goes by the selector, so it finds a variable whose name holds a hyphen and
is otherwise plain, and no variable whose name holds none. -/
namespace ColorTheme.Probe

/-- The rule of a variable as the compiler lays it out. -/
def compiledRule (name sentinel : Text) : Text :=
  selector name ++ " \x7b\n  color: " ++ sentinel ++ ";\n\x7d\n"

def compiledRules (m : SentinelMap) : Text :=
  m.entries.flatMap fun (name, sentinel) => compiledRule name sentinel

/-- A block is a point, a selector up to the opening, and a line with a semicolon. -/
theorem block_eq_some {before : Option Char} {here name value left : Text} :
    block before here = some ((name, value), left) ↔
      name ≠ [] ∧ (∀ c ∈ name, isSelectorChar c = true) ∧ ∃ line rest,
        here = "." ++ (name ++ (" \x7b\n  color: " ++ rest)) ∧
          Text.cutLineLast? ';' rest = some (line, left) ∧ value = Text.trim line := by
  constructor
  · intro found
    simp only [block, Option.bind_eq_bind, Option.bind_eq_some_iff, Text.after?_eq_some] at found
    obtain ⟨text, rfl, found⟩ := found
    have parts := List.prefix_iff_eq_append.mp (List.takeWhile_prefix isSelectorChar (l := text))
    split at found
    · contradiction
    · rename_i filled
      simp only [Option.bind_eq_some_iff, Text.after?_eq_some] at found
      obtain ⟨rest, opened, ⟨line, later⟩, cut, same⟩ := found
      cases same
      refine ⟨by simpa using filled, List.all_eq_true.mp List.all_takeWhile, line, rest, ?_, cut, rfl⟩
      rw [← opened, parts]
  · rintro ⟨filled, inner, line, rest, rfl, cut, rfl⟩
    have closed : ((" \x7b\n  color: " : Text) ++ rest).head?.any isSelectorChar = false := rfl
    have run := (Text.run_append inner closed).1
    have named : ¬ name.isEmpty = true := by simpa using filled
    simp only [block, Text.after?_append, Option.bind_eq_bind, Option.bind_some, run, if_neg named,
      List.drop_left, cut]
    rfl

theorem block_local : block.Local where
  blind _ _ _ := rfl
  covers {_ _ value left} found := by
    obtain ⟨_, _, line, rest, rfl, cut, _⟩ := block_eq_some.mp found
    rw [Text.cutLineLast?_eq_append cut]
    exact ⟨'.', value.1 ++ (" \x7b\n  color: " ++ line) ++ [';'], by simp⟩

theorem block_missed {c : Char} (other : c ≠ '.') (text : Text) : block none (c :: text) = none := by
  rw [Option.eq_none_iff_forall_ne_some]
  rintro ⟨⟨name, value⟩, left⟩ found
  obtain ⟨_, _, _, _, whole, _⟩ := block_eq_some.mp found
  exact other (List.cons.inj whole).1

theorem sentinel_solid {sentinel : Text} (colored : IsColor sentinel) :
    Text.trim sentinel = sentinel ∧ '\n' ∉ sentinel ∧ '.' ∉ sentinel := by
  obtain ⟨digits, rfl, _, lower⟩ := colored
  have known : ('#' :: sentinelDigits).all (fun c => !Text.isBlank c && c ≠ '.') = true := by decide
  have each : ∀ c ∈ '#' :: digits, Text.isBlank c = false ∧ c ≠ '.' := by
    intro c member
    have within : c ∈ '#' :: sentinelDigits := by
      rcases List.mem_cons.mp member with same | digit
      · exact same ▸ List.mem_cons_self
      · exact List.mem_cons_of_mem _ (lower c digit)
    simpa using List.all_eq_true.mp known c within
  refine ⟨Text.trim_solid fun c member => (each c member).1, fun feed => ?_, fun point => ?_⟩
  · exact absurd (each _ feed).1 (by decide)
  · exact (each _ point).2 rfl

theorem before_space {name word x y : Text} (clean : ' ' ∉ name) (free : ' ' ∉ word)
    (same : name ++ ' ' :: x = word ++ ' ' :: y) : name = word := by
  have front : ∀ {text : Text} (rest : Text), ' ' ∉ text →
      (text ++ ' ' :: rest).takeWhile (· ≠ ' ') = text := by
    intro text rest absent
    refine (Text.run_append (fun c member => decide_eq_true ?_) (by simp)).1
    exact fun space => absent (space ▸ member)
  rw [← front x clean, same, front y free]

section Rule

variable {word sentinel : Text} (worded : ∀ c ∈ word, Text.isWordOrDash c = true)

include worded

theorem selector_word : selector ('@' :: word) = '.' :: word := by
  have kept : word.dropWhile (· = '@') = word :=
    Text.dropWhile_of_none fun c member => by
      have other : c ≠ '@' := fun same => absurd (worded c member) (by rw [same]; decide)
      simpa using other
  simp [selector, Shade.withoutSigil, kept]

theorem compiledRule_word (rest : Text) : compiledRule ('@' :: word) sentinel ++ rest =
    "." ++ (word ++ (" \x7b\n  color: " ++ (sentinel ++ ';' :: '\n' :: ("\x7d\n" ++ rest)))) := by
  rw [compiledRule, selector_word worded]
  simp

theorem block_rule (filled : word ≠ []) (colored : IsColor sentinel)
    (plain : word.all isSelectorChar = true) (rest : Text) :
    block none (compiledRule ('@' :: word) sentinel ++ rest) =
      some ((word, sentinel), "\n\x7d\n" ++ rest) := by
  obtain ⟨trimmed, single, _⟩ := sentinel_solid colored
  have other : ';' ≠ '\n' := by decide
  have cut := Text.cutLineLast?_line single other ("\x7d\n" ++ rest)
  exact block_eq_some.mpr ⟨filled, List.all_eq_true.mp plain, sentinel, _,
    compiledRule_word worded rest, cut, trimmed.symm⟩

theorem block_rule_none (unfit : word.all isSelectorChar = false) (rest : Text) :
    block none (compiledRule ('@' :: word) sentinel ++ rest) = none := by
  rw [Option.eq_none_iff_forall_ne_some]
  rintro ⟨⟨name, value⟩, left⟩ found
  obtain ⟨_, inner, _, _, here, _⟩ := block_eq_some.mp found
  -- Both selectors end at the first space, so the block would have the rule's own selector.
  have clean : ' ' ∉ name := fun space => absurd (inner ' ' space) (by decide)
  have free : ' ' ∉ word := fun space => absurd (worded ' ' space) (by decide)
  have same : name = word := before_space clean free
    (List.append_cancel_left (here.symm.trans (compiledRule_word worded rest)))
  rw [same] at inner
  exact Bool.false_ne_true (unfit.symm.trans (List.all_eq_true.mpr inner))

/-- The rule of a variable is one block if its selector is plain, and otherwise none. -/
theorem findAll_rule (filled : word ≠ []) (colored : IsColor sentinel) (rest : Text) :
    Text.findAll block (compiledRule ('@' :: word) sentinel ++ rest) =
      (if word.all isSelectorChar then [(word, sentinel)] else []) ++ Text.findAll block rest := by
  cases plain : word.all isSelectorChar with
  | true =>
    have closing : '.' ∉ ("\n\x7d\n" : Text) := by decide
    rw [Text.findAll_match block_local (block_rule worded filled colored plain rest),
      Text.findAll_append block_local]
    · rfl
    · intro c member
      exact block_missed fun point => closing (point ▸ member)
  | false =>
    obtain ⟨_, _, pointless⟩ := sentinel_solid colored
    have missed : block none (compiledRule ('@' :: word) sentinel ++ rest) = none :=
      block_rule_none worded plain rest
    have pass : Text.findAll block (compiledRule ('@' :: word) sentinel ++ rest) =
        Text.findAll block ((word ++ (" \x7b\n  color: " ++ (sentinel ++ ";\n\x7d\n"))) ++ rest) := by
      rw [compiledRule_word worded] at missed ⊢
      refine (Text.findAll_char block_local missed).trans (congrArg _ ?_)
      simp
    rw [pass, Text.findAll_append block_local]
    · rfl
    · intro c member
      refine block_missed fun point => ?_
      subst point
      rcases List.mem_append.mp member with inside | rest
      · exact absurd (worded '.' inside) (by decide)
      · rcases List.mem_append.mp rest with opening | value
        · contradiction
        · rcases List.mem_append.mp value with color | closing
          · exact pointless color
          · contradiction

end Rule

/-- The kept blocks of a sheet, as the scan binds them. -/
def keptBlocks (css : Text) : List (Text × Text) :=
  (Text.findAll block css).filterMap fun (name, value) =>
    if isKept name value then some ('@' :: name, value) else none

/-- A name holds a hyphen and nothing that a compiled selector cannot hold. -/
def isRecovered (name : Text) : Bool := name.contains '-' && name.tail.all isSelectorChar

theorem keptBlocks_rule {name sentinel : Text} (worded : Variable.IsName name)
    (colored : IsColor sentinel) (rest : Text) :
    keptBlocks (compiledRule name sentinel ++ rest) =
      (if isRecovered name then [(name, sentinel)] else []) ++ keptBlocks rest := by
  obtain ⟨word, rfl, filled, inner⟩ := worded
  rw [keptBlocks, findAll_rule inner filled colored, List.filterMap_append]
  refine congrArg (· ++ keptBlocks rest) ?_
  obtain ⟨digits, rfl, _, _⟩ := colored
  have unquoted : '\'' ∉ word := fun quote => absurd (inner '\'' quote) (by decide)
  cases plain : word.all isSelectorChar with
  | false => simp [isRecovered, plain]
  | true =>
    by_cases hyphen : '-' ∈ word
    · simp [isRecovered, isKept, plain, hyphen, Text.startsWith, Text.after?]
    · simp [isRecovered, isKept, plain, hyphen, unquoted]

theorem keptBlocks_rules {entries : List (Text × Text)}
    (worded : ∀ entry ∈ entries, Variable.IsName entry.1)
    (colored : ∀ entry ∈ entries, IsColor entry.2) :
    keptBlocks (entries.flatMap fun (name, sentinel) => compiledRule name sentinel) =
      entries.filter fun entry => isRecovered entry.1 := by
  induction entries with
  | nil => rfl
  | cons entry rest ih =>
    have later := ih (fun other member => worded other (List.mem_cons_of_mem entry member))
      (fun other member => colored other (List.mem_cons_of_mem entry member))
    rw [List.flatMap_cons, keptBlocks_rule (worded entry List.mem_cons_self)
      (colored entry List.mem_cons_self), later, List.filter_cons]
    split <;> rfl

/-- The scan recovers the assigned names that it can tell for variables. -/
theorem scan_compiledRules {names : List Text}
    (worded : ∀ name ∈ names, Variable.IsName name) {m : SentinelMap}
    (assigned : SentinelMap.Assigned names m) :
    (scan (compiledRules m)).entries = m.entries.filter fun entry => isRecovered entry.1 := by
  have kept := keptBlocks_rules (fun entry member => worded _ (assigned.given entry member).1)
    (fun entry member => (assigned.given entry member).2)
  have distinct : ((m.entries.filter fun entry => isRecovered entry.1).map Prod.fst).Nodup :=
    assigned.distinct.sublist (List.filter_sublist.map Prod.fst)
  rw [← kept] at distinct ⊢
  exact Bindings.ofList_entries distinct

/-- The variables that are read back, in order: none without a hyphen, and every one with a hyphen
among ASCII letters and digits. -/
theorem scan_selected {requested : List Text} {symbols : Bindings} {a b : Allocator}
    {m : SentinelMap} (declared : Symbol.Declared symbols)
    (assigned : SentinelMap.assign (Symbol.select requested symbols) a = some (m, b)) :
    let found := (scan (compiledRules m)).entries
    found.Sublist m.entries ∧ (∀ entry ∈ m.entries, '-' ∉ entry.1 → entry ∉ found) ∧
      ∀ entry ∈ m.entries, '-' ∈ entry.1 →
        (∀ c ∈ entry.1.tail, Text.isAsciiAlphanumeric c = true ∨ c = '-') → entry ∈ found := by
  intro found
  have worded : ∀ name ∈ Symbol.select requested symbols,
      Variable.IsName name := by
    intro name chosen
    obtain ⟨_, _, listed, rfl⟩ := declared name (Symbol.mem_names_of_select chosen)
    exact Variable.extract_name listed
  have scanned : found = m.entries.filter fun entry => isRecovered entry.1 :=
    scan_compiledRules worded (SentinelMap.assign_assigned assigned)
  rw [scanned]
  refine ⟨List.filter_sublist, ?_, ?_⟩
  · rintro entry _ missing known
    have recovered := (List.mem_filter.mp known).2
    simp [isRecovered, missing] at recovered
  · intro entry member hyphen plain
    refine List.mem_filter.mpr ⟨member, Bool.and_eq_true_iff.mpr ⟨?_, ?_⟩⟩
    · exact List.contains_iff_mem.mpr hyphen
    · refine List.all_eq_true.mpr fun c inside => ?_
      rcases plain c inside with letter | rfl
      · simp [isSelectorChar, letter]
      · rfl

/-- Of two selected variables the one with a hyphen is read back. -/
theorem scan_selected_hyphen :
    let symbols := Bindings.parse "@link: #fff; @link-color: #eee;"
    let plain : Text × Text := ("@link", "#000001")
    let hyphened : Text × Text := ("@link-color", "#000002")
    Symbol.Declared symbols ∧ ∃ m b,
      SentinelMap.assign (Symbol.select ["@link", "@link-color"] symbols)
        { draws := Draws.ofList #[256, 512] } = some (m, b) ∧ m.entries = [plain, hyphened] ∧
      plain ∉ (scan (compiledRules m)).entries ∧ hyphened ∈ (scan (compiledRules m)).entries := by
  intro symbols plain hyphened
  have declared : Symbol.Declared symbols := Symbol.declared_parse _
  have selected : Symbol.select ["@link", "@link-color"] symbols =
      [("@link" : Text), "@link-color"] := by
    decide +kernel
  have assigned : ∃ m b, SentinelMap.assign (Symbol.select ["@link", "@link-color"] symbols)
      { draws := Draws.ofList #[256, 512] } = some (m, b) ∧ m.entries = [plain, hyphened] := by
    rw [selected, SentinelMap.assign,
      SentinelMap.assignFrom_new rfl (by decide)
        (Allocator.next_first "#000001" (by decide +kernel)),
      SentinelMap.assignFrom_new (by decide) (by decide)
        (Allocator.next_first "#000002" (by decide +kernel))]
    exact ⟨_, _, rfl, rfl⟩
  obtain ⟨m, b, assigned, entries⟩ := assigned
  obtain ⟨_, dropped, kept⟩ := scan_selected declared assigned
  have letters : hyphened.1.tail.all (fun c => Text.isAsciiAlphanumeric c || c = '-') = true := by
    decide +kernel
  refine ⟨declared, m, b, assigned, entries, dropped plain (by simp [entries]) (by decide +kernel),
    kept hyphened (by simp [entries]) (by decide +kernel) fun c member => ?_⟩
  simpa using List.all_eq_true.mp letters c member

/-- A selected variable without a hyphen leaves its sentinel behind: not everything is read back. -/
theorem scan_selected_incomplete :
    ¬ ∀ (requested : List Text) (symbols : Bindings) (a b : Allocator) (m : SentinelMap),
      Symbol.Declared symbols →
      SentinelMap.assign (Symbol.select requested symbols) a = some (m, b) →
      (scan (compiledRules m)).entries = m.entries := by
  intro complete
  have selected : Symbol.select ["@link"] (Bindings.parse "@link: #fff;") = [("@link" : Text)] := by
    decide +kernel
  have drawn := Allocator.next_first (a := { draws := Draws.ofList #[256] }) "#000001"
    (by decide +kernel)
  have other : ("@link" : Text) ≠ primaryVariable := by decide
  have assigned := SentinelMap.assignFrom_new (m := {}) rfl other drawn []
  have all := complete ["@link"] (Bindings.parse "@link: #fff;") _ _ _ (Symbol.declared_parse _)
    (selected ▸ assigned)
  revert all
  decide +kernel

end ColorTheme.Probe
