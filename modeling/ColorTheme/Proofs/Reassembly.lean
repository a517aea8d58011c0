import ColorTheme.Proofs.Removal

/-!
Reassembly. The selected symbols are declared in front, one line for each, and the declarations of
them that the removal finds behind are taken out. Lines in front are never taken out, unless a value
speaks of another name and a colon. -/
namespace ColorTheme.Substitution

open Variable

/-- Whether a text holds the name and a colon, with or without spaces in front of the colon. -/
def speaksOf (name : Text) : Text → Bool
  | [] => false
  | c :: rest =>
    (Text.after? name (c :: rest)).any (fun more => Text.startsWith ":" (more.dropWhile (· = ' '))) ||
      speaksOf name rest

def symbol (symbols : Bindings) (name : Text) : Variable := ⟨name, (symbols.get? name).getD []⟩

def declarations (symbols : Bindings) (names : List Text) : Text :=
  names.flatMap fun name => (symbol symbols name).render ++ "\n"

theorem declarations_cons (symbols : Bindings) (name : Text) (names : List Text) :
    declarations symbols (name :: names) =
      (symbol symbols name).render ++ "\n" ++ declarations symbols names := List.flatMap_cons

theorem declare_eq (symbols : Bindings) (name css : Text) : declare symbols name css =
    (symbol symbols name).render ++ "\n" ++ (Text.erase (declarationOf name) css ++ "\n") := by
  simp [declare, symbol, Variable.render]

theorem speaksOf_append {name spaces : Text} (named : IsName name) (blank : ∀ c ∈ spaces, c = ' ')
    (front rest : Text) : speaksOf name (front ++ (name ++ (spaces ++ ':' :: rest))) = true := by
  induction front with
  | nil =>
    obtain ⟨word, rfl, _⟩ := named
    have here : Text.after? ('@' :: word) ('@' :: (word ++ (spaces ++ ':' :: rest))) =
        some (spaces ++ ':' :: rest) := Text.after?_append ('@' :: word) (spaces ++ ':' :: rest)
    rw [List.nil_append, List.cons_append, speaksOf, here, Option.any_some, dropWhile_spaces blank]
    simp [Text.startsWith, Text.after?]
  | cons c front ih => simp [speaksOf, ih]

/-- A rendered declaration holds a heading of its own name, and others only if its value does. -/
theorem render_speaksOf {name spaces start rest : Text} {v : Variable} (named : IsName name)
    (other : IsName v.name) (blank : ∀ c ∈ spaces, c = ' ')
    (whole : v.render = start ++ (name ++ (spaces ++ ':' :: rest))) :
    name = v.name ∨ speaksOf name v.value = true := by
  have rendered : v.name ++ ": " ++ v.value ++ ";" = start ++ (name ++ spaces) ++ ':' :: rest :=
    whole.trans (by simp)
  obtain ⟨rest, front⟩ := Text.split_before rendered (by decide)
  cases start with
  | nil =>
    -- Both names are read from the same text.
    have first := heading?_of_heading (heading_plain named blank) rest
    have second := heading?_of_heading (heading_plain other (List.forall_mem_nil _)) (' ' :: v.value)
    have same : v.name ++ [] ++ [':'] ++ ' ' :: v.value = name ++ spaces ++ [':'] ++ rest := by
      simpa using front
    rw [same, first] at second
    cases second
    exact .inl rfl
  | cons c start =>
    obtain ⟨word, sigil, _, inner⟩ := other
    obtain ⟨letters, spelled, _⟩ := id named
    have clean : '@' ∉ word ++ (": " : Text) := by
      intro member
      rcases List.mem_append.mp member with letter | colon
      · exact absurd (inner _ letter) (by decide)
      · exact absurd colon (by decide)
    rw [sigil, spelled] at front
    have split : word ++ ": " ++ v.value = start ++ '@' :: (letters ++ (spaces ++ ':' :: rest)) := by
      simpa using (List.cons.inj front).2
    obtain ⟨more, _, value⟩ := Text.split_behind split clean
    rw [value, ← List.cons_append, ← spelled]
    exact .inr (speaksOf_append named blank more rest)

theorem erase_render {name : Text} {v : Variable} (named : IsName name) (other : IsName v.name)
    (apart : name ≠ v.name) (silent : speaksOf name v.value = false) (rest : Text) :
    Text.erase (declarationOf name) (v.render ++ "\n" ++ rest) =
      v.render ++ "\n" ++ Text.erase (declarationOf name) rest := by
  refine Text.erase_append (declarationOf_local named) fun here filled suffix => ?_
  rw [Option.eq_none_iff_forall_ne_some]
  rintro ⟨_, left⟩ found
  obtain ⟨spaces, behind, _, blank, whole, _⟩ := declarationOf_eq_some.mp found
  obtain ⟨inside, last, rfl⟩ := (List.eq_nil_or_concat here).resolve_left filled
  obtain ⟨start, split⟩ := suffix
  rw [List.concat_eq_append, ← List.append_assoc] at split
  obtain ⟨line, feed⟩ := List.append_inj' split rfl
  obtain rfl : last = '\n' := by simpa using feed
  -- The line feed comes behind the colon.
  have clean : '\n' ∉ name ++ (spaces ++ [':']) := by
    simpa using (heading_plain named blank).notMem (c := '\n') (by decide)
  have ahead : name ++ (spaces ++ [':']) ++ behind = inside ++ '\n' :: rest := by
    simpa using whole.symm
  obtain ⟨more, ahead, _⟩ := Text.split_behind ahead clean
  have holds : v.render = start ++ (name ++ (spaces ++ ':' :: more)) := by simp [← line, ahead]
  rcases render_speaksOf named other blank holds with same | speaks
  · exact apart same
  · exact absurd speaks (by simp [silent])

section Selected

variable {symbols : Bindings}

theorem erase_declarations {name : Text} (named : IsName name) {names : List Text}
    (others : ∀ other ∈ names, IsName other ∧ name ≠ other ∧
      speaksOf name (symbol symbols other).value = false) (rest : Text) :
    Text.erase (declarationOf name) (declarations symbols names ++ rest) =
      declarations symbols names ++ Text.erase (declarationOf name) rest := by
  induction names with
  | nil => rfl
  | cons other names ih =>
    obtain ⟨⟨isName, apart, silent⟩, later⟩ := List.forall_mem_cons.mp others
    have kept := erase_render (v := symbol symbols other) named isName apart silent
    rw [declarations_cons, List.append_assoc, kept, ih later]
    simp only [List.append_assoc]

/-- The lines of all names come in front, and behind them is what the removals leave. -/
theorem reassemble_eq {selected : List Text} (named : ∀ name ∈ selected, IsName name)
    (distinct : selected.Nodup) (silent : ∀ name ∈ selected, ∀ other ∈ selected,
      speaksOf name (symbol symbols other).value = false) (css defaultTheme : Text) :
    reassemble css defaultTheme selected symbols = declarations symbols selected ++
      withoutDeclarations selected (Text.trim css ++ "\n" ++ defaultTheme) := by
  rw [reassemble]
  generalize Text.trim css ++ "\n" ++ defaultTheme = source
  induction selected with
  | nil => rfl
  | cons name later ih =>
    obtain ⟨new, distinct⟩ := List.nodup_cons.mp distinct
    obtain ⟨isName, names⟩ := List.forall_mem_cons.mp named
    have others : ∀ other ∈ later, IsName other ∧ name ≠ other ∧
        speaksOf name (symbol symbols other).value = false := fun other member =>
      ⟨names other member, fun same => new (same ▸ member),
        silent name List.mem_cons_self other (List.mem_cons_of_mem name member)⟩
    have front := ih names distinct fun name member other known =>
      silent name (List.mem_cons_of_mem _ member) other (List.mem_cons_of_mem _ known)
    rw [List.foldr_cons, front, declare_eq, erase_declarations isName others, declarations_cons,
      withoutDeclarations_cons]
    simp only [List.append_assoc]

theorem extract_declarations {names : List Text}
    (readable : ∀ name ∈ names, (symbol symbols name).Readable) (rest : Text) :
    extract (declarations symbols names ++ rest) = names.map (symbol symbols) ++ extract rest := by
  have lines : declarations symbols names = listing (names.map (symbol symbols)) := by
    rw [declarations, listing, List.flatMap_map]
  rw [lines, extract_listing (List.forall_mem_map.mpr readable)]

theorem symbol_readable (readable : Symbol.Readable symbols) {name : Text}
    (bound : name ∈ symbols.names) : (symbol symbols name).Readable := by
  cases known : symbols.get? name with
  | none =>
    obtain ⟨entry, member, rfl⟩ := List.mem_map.mp bound
    exact absurd (List.lookup_eq_none_iff.mp known entry member) (by simp)
  | some value =>
    have entry := readable (name, value) (Bindings.mem_of_get? known)
    rwa [symbol, known]

theorem filter_symbols {names : List Text} (distinct : names.Nodup) {name : Text}
    (listed : name ∈ names) :
    (names.map (symbol symbols)).filter (·.name = name) = [symbol symbols name] := by
  have once : names.filter (· = name) = [name] := by
    rw [List.filter_eq, List.count_eq_one_of_mem distinct listed, List.replicate_one]
  rw [List.filter_map]
  exact congrArg (List.map (symbol symbols)) once

end Selected

/-- Whatever is reassembled declares the selected symbols in front, in order and with their values,
and then what the removals leave of the source. If the declarations of the source are tidy, each
symbol is declared once. -/
theorem extract_reassemble (css defaultTheme : Text) {text own : Text} {classifier : Classifier}
    {colors : Bindings} {selected : List Text}
    (done : Variable.colors (extract text) classifier = .ok colors)
    (chosen : selected ⊆ (Symbol.merge colors (Bindings.parse own)).names)
    (distinct : selected.Nodup) (silent : ∀ name ∈ selected, ∀ other ∈ selected,
      speaksOf name (symbol (Symbol.merge colors (Bindings.parse own)) other).value = false) :
    let symbols := Symbol.merge colors (Bindings.parse own)
    let source := Text.trim css ++ "\n" ++ defaultTheme
    let declared := extract (reassemble css defaultTheme selected symbols)
    declared = selected.map (symbol symbols) ++ extract (withoutDeclarations selected source) ∧
      (Tidy selected source → ∀ name ∈ selected,
        declared.filter (·.name = name) = [symbol symbols name]) := by
  intro symbols source declared
  have readable : ∀ name ∈ selected, (symbol symbols name).Readable := fun name member =>
    symbol_readable (Symbol.readable_merge (Symbol.readable_colors done) (Symbol.readable_parse own))
      (chosen member)
  have named : ∀ name ∈ selected, IsName name := fun name member => (readable name member).named
  have all : declared = selected.map (symbol symbols) ++
      extract (withoutDeclarations selected source) := by
    rw [← extract_declarations readable, ← reassemble_eq named distinct silent css defaultTheme]
  refine ⟨all, fun tidy name member => ?_⟩
  have undeclared : (extract (withoutDeclarations selected source)).filter (·.name = name) = [] := by
    refine List.filter_eq_nil_iff.mpr fun v found => ?_
    have other := extract_withoutDeclarations named tidy found
    simpa using fun same : v.name = name => other (same ▸ member)
  rw [all, List.filter_append, undeclared, List.append_nil, filter_symbols distinct member]

/-- A default theme with two declarations on a line and spaces in front of a colon. -/
def sampleTheme : Text :=
  "@primary-color  : #1890ff;\n@text-color: #000; @link-color: @primary-color; // links"

def sampleSheet : Text := ".btn:hover \x7b\n  color: @link-color;\n\x7d\n"

theorem extract_reassemble_sample :
    let colors : Bindings := ⟨[("@primary-color", "#1890ff")]⟩
    let symbols := Symbol.merge colors (Bindings.parse "@link-color: @primary-color;")
    let selected : List Text := ["@primary-color", "@link-color"]
    let source := Text.trim sampleSheet ++ "\n" ++ sampleTheme
    Variable.colors (extract "@primary-color: #1890ff;") {} = .ok colors ∧
      selected ⊆ symbols.names ∧ selected.Nodup ∧
      (∀ name ∈ selected, ∀ other ∈ selected,
        speaksOf name (symbol symbols other).value = false) ∧
      Tidy selected source ∧
      extract (reassemble sampleSheet sampleTheme selected symbols) =
        [⟨"@primary-color", "#1890ff"⟩, ⟨"@link-color", "@primary-color"⟩,
          ⟨"@text-color", "#000"⟩] ∧
      ∀ name ∈ selected, (extract (reassemble sampleSheet sampleTheme selected symbols)).filter
        (·.name = name) = [symbol symbols name] := by
  intro colors symbols selected source
  have done : Variable.colors (extract "@primary-color: #1890ff;") {} = .ok colors := by
    decide +kernel
  have chosen : selected ⊆ symbols.names := by decide +kernel
  have distinct : selected.Nodup := by decide +kernel
  have silent : ∀ name ∈ selected, ∀ other ∈ selected,
      speaksOf name (symbol symbols other).value = false := by decide +kernel
  have tidy : Tidy selected source := by decide +kernel
  have rest : selected.map (symbol symbols) ++ extract (withoutDeclarations selected source) =
      [⟨"@primary-color", "#1890ff"⟩, ⟨"@link-color", "@primary-color"⟩,
        ⟨"@text-color", "#000"⟩] := by decide +kernel
  have all := extract_reassemble sampleSheet sampleTheme done chosen distinct silent
  exact ⟨done, chosen, distinct, silent, tidy, all.1.trans rest, all.2 tidy⟩

/-- A declaration that goes on over the end of its line is not taken out, and a symbol is then
declared twice. -/
theorem extract_reassemble_wrapped :
    ¬ ∀ (css defaultTheme text own : Text) (classifier : Classifier) (colors : Bindings)
      (selected : List Text),
      Variable.colors (extract text) classifier = .ok colors →
      let symbols := Symbol.merge colors (Bindings.parse own)
      selected ⊆ symbols.names → selected.Nodup →
      (∀ name ∈ selected, ∀ other ∈ selected,
        ¬ (name ++ (":" : Text)) <:+: (symbol symbols other).value) →
      ∀ name ∈ selected, (extract (reassemble css defaultTheme selected symbols)).filter
        (·.name = name) = [symbol symbols name] := by
  intro once
  have all := once [] "@font-family: Arial,\n  sans-serif;" [] "@font-family: Arial,\n  sans-serif;"
    {} {} ["@font-family"] (by decide +kernel) (by decide +kernel) (by decide +kernel)
    (by decide +kernel) "@font-family" (by decide +kernel)
  revert all
  decide +kernel

end ColorTheme.Substitution
