import ColorTheme.Proofs.Allocation
import ColorTheme.Proofs.Generation

/-!
The stages of a generation. A generation succeeds just if every stage of it does, one after another:
the files are read, the compiler is asked for the probe, for the user's sheets and for the library, in
this order and each time in the state in which it was left, and there is a sentinel for all that needs
one. Only a sentinel can keep a generation waiting without end. -/
namespace ColorTheme.Generator

variable {σ α β : Type}

theorem run_bind {x : Making σ α} {f : α → Making σ β} {state after : σ} {b : β} :
    (x >>= f).run state = some (.ok b, after) ↔
      ∃ a between, x.run state = some (.ok a, between) ∧ (f a).run between = some (.ok b, after) := by
  have unfolded : (x >>= f).run state =
      (x.run state).bind fun out => ExceptT.bindCont f out.1 out.2 := rfl
  rw [unfolded, Option.bind_eq_some_iff]
  constructor
  · rintro ⟨⟨e | a, between⟩, ran, done⟩
    · cases done
    · exact ⟨a, between, ran, done⟩
  · rintro ⟨a, between, ran, done⟩
    exact ⟨_, ran, done⟩

theorem run_except {x : Except Failure α} {state : σ} :
    (liftM x : Making σ α).run state = some (x, state) := by
  cases x <;> rfl

theorem run_option {x : Option α} {state : σ} :
    (liftM x : Making σ α).run state = x.map fun a => (.ok a, state) := by
  cases x <;> rfl

theorem run_bind_except {x : Except Failure α} {f : α → Making σ β} {state after : σ} {b : β} :
    ((liftM x : Making σ α) >>= f).run state = some (.ok b, after) ↔
      ∃ a, x = .ok a ∧ (f a).run state = some (.ok b, after) := by
  rw [run_bind, run_except]
  constructor
  · rintro ⟨a, _, same, done⟩
    cases same
    exact ⟨a, rfl, done⟩
  · rintro ⟨a, rfl, done⟩
    exact ⟨a, state, rfl, done⟩

theorem run_bind_option {x : Option α} {f : α → Making σ β} {state after : σ} {b : β} :
    ((liftM x : Making σ α) >>= f).run state = some (.ok b, after) ↔
      ∃ a, x = some a ∧ (f a).run state = some (.ok b, after) := by
  rw [run_bind, run_option]
  constructor
  · rintro ⟨a, _, same, done⟩
    obtain ⟨_, rfl, same⟩ := Option.map_eq_some_iff.mp same
    cases same
    exact ⟨a, rfl, done⟩
  · rintro ⟨a, rfl, done⟩
    exact ⟨a, state, rfl, done⟩

theorem run_ofState {x : StateM σ α} {state after : σ} {a : α} :
    (Making.ofState x).run state = some (.ok a, after) ↔ x.run state = (a, after) := by
  have unfolded : (Making.ofState x).run state = some (.ok (x.run state).1, (x.run state).2) := rfl
  rw [unfolded, Option.some_inj, Prod.mk.injEq, Except.ok.injEq, Prod.ext_iff]

theorem run_pure {state after : σ} {a b : α} :
    (pure a : Making σ α).run state = some (.ok b, after) ↔ b = a ∧ after = state := by
  have unfolded : (pure a : Making σ α).run state = some (.ok a, state) := rfl
  rw [unfolded, Option.some_inj, Prod.mk.injEq, Except.ok.injEq, eq_comm, eq_comm (a := state)]

theorem run_compileStage {g : Generator σ} {stage : Text} {request : Request} {state after : σ}
    {css : Text} : (g.compileStage stage request).run state = some (.ok css, after) ↔
      (g.compiler.compile request).run state = (.ok css, after) := by
  rw [compileStage, run_bind]
  simp only [run_ofState, run_except, Option.some_inj, Prod.mk.injEq, mapError_eq_ok]
  constructor
  · rintro ⟨_, _, compiled, rfl, rfl⟩
    exact compiled
  · intro compiled
    exact ⟨_, _, compiled, rfl, rfl⟩

/-- What the stages of a generation come to. -/
structure Stages where
  symbols : Bindings
  assigned : SentinelMap × Allocator
  palette : Text
  probe : Text
  userCss : Text
  library : Text
  escaped : Text × EscapedCalls × Allocator
  libraryCss : Text
  reduced : Text
  defaultTheme : Text

namespace Stages

variable (s : Stages) (g : Generator σ) (options : ThemeOptions)

def selected : List Text := Symbol.select options.requested s.symbols

def probeRequest : Request where
  source := Probe.synthesize s.palette s.assigned.1
  searchPaths := options.paths.probeSearch

def compiled : Bindings := Probe.scan (Minify.stripBlockComments s.probe)

def libraryRequest : Request where
  source := s.escaped.1 ++ "\n" ++ s.assigned.1.declarations
  searchPaths := options.paths.librarySearch

def css : Text := Substitution.backward s.reduced s.escaped.2.1 s.compiled

def artifact : Text := Minify.minify
  (Substitution.reassemble s.css s.defaultTheme (s.selected options) s.symbols)

/-- Every stage succeeds, and the compiler passes from `state` to `after`. -/
structure Follow (fs : Files) (sheets : List Path) (state after : σ) : Prop where
  symbols : ∃ classifier, Classifier.ofPatterns g.engine options.colorPatterns = .ok classifier ∧
    symbolsOf fs options.paths.variableFile options.paths.moduleRoot classifier = .ok s.symbols
  assigned : SentinelMap.assign (s.selected options) { draws := g.draws } = some s.assigned
  palette : Import.flatten fs options.paths.colorsFile options.paths.moduleRoot = .ok s.palette
  library : Import.flatten fs options.paths.componentFile options.paths.moduleRoot = .ok s.library
  escaped : EscapedCalls.escape s.library s.symbols s.assigned.2 = some s.escaped
  defaultTheme : Import.flatten fs options.paths.defaultThemeFile options.paths.moduleRoot =
    .ok s.defaultTheme
  compiles : ∃ probed listed,
    (g.compiler.compile (s.probeRequest options)).run state = (.ok s.probe, probed) ∧
    (g.compileSheets fs options.paths sheets s.compiled).run probed = (s.userCss, listed) ∧
    (g.compiler.compile (s.libraryRequest options)).run listed = (.ok s.libraryCss, after)
  reduces : g.compiler.reduce (s.libraryCss ++ "\n" ++ s.userCss) = .ok s.reduced

end Stages

/-- A generation succeeds just if its stages do, and its artifact is what they come to. -/
theorem make_eq_ok {g : Generator σ} {fs : Files} {options : ThemeOptions} {sheets : List Path}
    {state after : σ} {artifact : Text} :
    (g.make fs options sheets).run state = some (.ok artifact, after) ↔
      ∃ s : Stages, s.Follow g options fs sheets state after ∧ artifact = s.artifact options := by
  unfold make
  -- Steps that ask no compiler come first, so that they leave no state of their own behind.
  simp only [↓run_bind_except, ↓run_bind_option, run_bind, run_ofState, run_compileStage, run_pure,
    mapError_eq_ok]
  constructor
  · rintro ⟨classifier, valid, symbols, merged, assigned, taken, palette, colors, probe, probed, probes,
      userCss, listed, compiled, library, components, escaped, written, libraryCss, last, answered,
      reduced, reduces, defaultTheme, theme, made, rfl⟩
    exact ⟨⟨symbols, assigned, palette, probe, userCss, library, escaped, libraryCss, reduced,
      defaultTheme⟩, ⟨⟨classifier, valid, merged⟩, taken, colors, components, written, theme,
        ⟨probed, listed, probes, compiled, answered⟩, reduces⟩, made⟩
  · rintro ⟨s, follow, made⟩
    obtain ⟨classifier, valid, merged⟩ := follow.symbols
    obtain ⟨probed, listed, probes, compiled, answered⟩ := follow.compiles
    exact ⟨classifier, valid, s.symbols, merged, s.assigned, follow.assigned, s.palette,
      follow.palette, s.probe, probed, probes, s.userCss, listed, compiled, s.library, follow.library,
      s.escaped, follow.escaped, s.libraryCss, after, answered, s.reduced, follow.reduces,
      s.defaultTheme, follow.defaultTheme, made, rfl⟩

/-- Steps that come to an end, wherever they start. -/
def Making.Ends (x : Making σ α) : Prop := ∀ state, (x.run state).isSome = true

theorem ends_bind {x : Making σ α} {f : α → Making σ β} (first : x.Ends)
    (later : ∀ a, (f a).Ends) : (x >>= f).Ends := by
  intro state
  have unfolded : (x >>= f).run state =
      (x.run state).bind fun out => ExceptT.bindCont f out.1 out.2 := rfl
  obtain ⟨⟨e | a, between⟩, ran⟩ := Option.isSome_iff_exists.mp (first state)
  · rw [unfolded, ran]
    rfl
  · rw [unfolded, ran]
    exact later a between

theorem ends_bind_except {x : Except Failure α} {f : α → Making σ β}
    (later : ∀ a, x = .ok a → (f a).Ends) : ((liftM x : Making σ α) >>= f).Ends := by
  cases x with
  | error e => exact fun _ => rfl
  | ok a => exact later a rfl

theorem ends_bind_option {x : Option α} {f : α → Making σ β}
    (later : ∃ a, x = some a ∧ (f a).Ends) : ((liftM x : Making σ α) >>= f).Ends := by
  obtain ⟨a, rfl, later⟩ := later
  exact later

theorem ends_ofState (x : StateM σ α) : (Making.ofState x).Ends := fun _ => rfl

theorem ends_compileStage (g : Generator σ) (stage : Text) (request : Request) :
    (g.compileStage stage request).Ends :=
  ends_bind (ends_ofState _) fun answer state => by rw [run_except]; rfl

/-- There is a color for each sentinel that a generation may need. -/
structure Supplied (g : Generator σ) (fs : Files) (options : ThemeOptions) : Prop where
  plentiful : g.draws.Plentiful
  enough : ∀ classifier symbols,
    Classifier.ofPatterns g.engine options.colorPatterns = .ok classifier →
    symbolsOf fs options.paths.variableFile options.paths.moduleRoot classifier = .ok symbols →
    ∃ count, (Symbol.select options.requested symbols).length + count ≤ Allocator.colorCount ∧
      ∀ library, Import.flatten fs options.paths.componentFile options.paths.moduleRoot =
        .ok library → (EscapedCalls.escapable symbols library).length ≤ count

theorem make_ends {g : Generator σ} {fs : Files} {options : ThemeOptions}
    (supplied : g.Supplied fs options) (sheets : List Path) : (g.make fs options sheets).Ends := by
  refine ends_bind_except fun classifier valid => ends_bind_except fun symbols merged => ?_
  obtain ⟨count, bounded, calls⟩ := supplied.enough classifier symbols (mapError_eq_ok.mp valid) merged
  have left : Allocator.Left { draws := g.draws }
      ((Symbol.select options.requested symbols).length + count) :=
    ⟨supplied.plentiful, by simpa using bounded⟩
  obtain ⟨sentinels, allocator, assigned, left⟩ := SentinelMap.assignFrom_left {} left
  refine ends_bind_option ⟨_, assigned, ends_bind_except fun palette _ =>
    ends_bind (ends_compileStage g _ _) fun probe => ends_bind (ends_ofState _) fun userCss =>
    ends_bind_except fun library read => ?_⟩
  have enough : allocator.Left ((EscapedCalls.escapable symbols library).length + 0) :=
    ⟨left.plentiful, Nat.le_trans (Nat.add_le_add_left (calls library read) _) left.bounded⟩
  obtain ⟨escaped, found, _⟩ := EscapedCalls.assemble_left {} enough
  exact ends_bind_option ⟨_, found, ends_bind (ends_compileStage g _ _) fun libraryCss =>
    ends_bind_except fun reduced _ => ends_bind_except fun defaultTheme _ _ => rfl⟩

/-- A generation has a result if the stream keeps yielding every color and there are enough. -/
theorem tryGenerate_ends {g : Generator σ} {options : ThemeOptions} {w : World σ}
    (supplied : g.Supplied w.files options) : (g.tryGenerate options w).isSome = true := by
  simp only [tryGenerate]
  split
  · rfl
  · split
    · rfl
    · obtain ⟨⟨made, state⟩, ran⟩ := Option.isSome_iff_exists.mp (make_ends supplied _ w.state)
      rw [ran]
      cases made with
      | error e => rfl
      | ok artifact =>
        simp only [Option.bind_eq_bind, Option.bind_some]
        split <;> rfl

end ColorTheme.Generator
