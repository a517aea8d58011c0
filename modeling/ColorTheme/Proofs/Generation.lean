import ColorTheme.Generation
import ColorTheme.Proofs.Files
import ColorTheme.Proofs.Symbol

/-!
What a generation selects from, and what it can do, each said once. Symbols are declared names. A
generation answers from the cache, or makes an artifact anew and writes it, or fails and leaves the
files and the cache as they are. -/
namespace ColorTheme

theorem Cache.lookup_eq_some {c : Cache} {digest artifact : Text} :
    c.lookup digest = some artifact ↔ c.digest = some digest ∧ artifact = c.artifact := by
  simp [lookup, eq_comm]

theorem Cache.lookup_eq_none {c : Cache} {digest : Text} :
    c.lookup digest = none ↔ c.digest ≠ some digest := by
  simp [lookup]

theorem Files.readVariables_eq {fs : Files} {path : Path} {declared : List Variable}
    (read : fs.readVariables path = .ok declared) : ∃ text, declared = Variable.extract text := by
  unfold readVariables at read
  cases source : fs.readSource path with
  | error e => simp [source, Except.map] at read
  | ok text =>
    simp only [source, Except.map, Except.ok.injEq] at read
    exact ⟨text, read.symm⟩

/-- Every symbol that a generation selects from is declared in some text. -/
theorem declared_symbolsOf {fs : Files} {variableFile moduleRoot : Path} {classifier : Classifier}
    {symbols : Bindings} (found : symbolsOf fs variableFile moduleRoot classifier = .ok symbols) :
    Symbol.Declared symbols := by
  simp only [symbolsOf, bind, Except.bind] at found
  split at found
  · contradiction
  · rename_i text _
    cases resolved : Variable.colors (Variable.extract text) classifier with
    | error e => simp [resolved, mapError_error] at found
    | ok colors =>
      simp only [resolved, mapError_ok] at found
      split at found
      · contradiction
      · rename_i own read
        obtain ⟨sheet, rfl⟩ := Files.readVariables_eq read
        cases found
        exact Symbol.declared_merge (Symbol.declared_colors resolved) (Symbol.declared_parse sheet)

namespace Generator

variable {σ : Type}

variable {g : Generator σ} {options : ThemeOptions} {w world : World σ}

/-- The results that a generation can have, with the worlds after it. -/
inductive Outcome (g : Generator σ) (options : ThemeOptions) (w : World σ) :
    Except Failure Text → World σ → Prop
  | cached (digest : Text)
      (read : UserSheet.digest g.hash w.files (UserSheet.collect w.files options.styleDirs) =
        .ok digest)
      (known : w.cache.digest = some digest) : Outcome g options w (.ok w.cache.artifact) w
  | made (digest artifact : Text) (state : σ) (files : Files)
      (read : UserSheet.digest g.hash w.files (UserSheet.collect w.files options.styleDirs) =
        .ok digest)
      (new : w.cache.digest ≠ some digest)
      (made : (g.make w.files options (UserSheet.collect w.files options.styleDirs)).run w.state =
        some (.ok artifact, state))
      (written : emit w.files options.outputFile artifact = .ok files) :
      Outcome g options w (.ok artifact) ⟨files, ⟨some digest, artifact⟩, state⟩
  | failed (e : Failure) (state : σ) : Outcome g options w (.error e) { w with state }

theorem tryGenerate_outcome {result : Except Failure Text}
    (tried : g.tryGenerate options w = some (result, world)) : Outcome g options w result world := by
  simp only [tryGenerate] at tried
  split at tried
  · rename_i e _
    cases tried
    exact .failed e w.state
  · rename_i digest read
    split at tried
    · rename_i artifact hit
      obtain ⟨known, rfl⟩ := Cache.lookup_eq_some.mp hit
      cases tried
      exact .cached digest read known
    · rename_i missed
      have new := Cache.lookup_eq_none.mp missed
      obtain ⟨⟨made, state⟩, ran, tried⟩ := Option.bind_eq_some_iff.mp tried
      cases made with
      | error e =>
        cases tried
        exact .failed e state
      | ok artifact =>
        simp only at tried
        split at tried
        · rename_i e _
          cases tried
          exact .failed e state
        · rename_i files written
          cases tried
          exact .made digest artifact state files read new ran written

theorem generate_eq_some {artifact : Text} : g.generate options w = some (artifact, world) ↔
    ∃ result, g.tryGenerate options w = some (result, world) ∧
      artifact = result.toOption.getD [] := by
  rw [generate, Option.map_eq_some_iff]
  constructor
  · rintro ⟨⟨result, after⟩, tried, same⟩
    cases same
    exact ⟨result, tried, rfl⟩
  · rintro ⟨result, tried, rfl⟩
    exact ⟨(result, world), tried, rfl⟩

/-- What a generation leaves behind: nothing new without an artifact or with the cached one, and
else a cached artifact that was put out. -/
theorem generate_cases {artifact : Text}
    (generated : g.generate options w = some (artifact, world)) :
    (world.files = w.files ∧ world.cache = w.cache ∧
      (artifact = [] ∨ w.cache.digest ≠ none ∧ artifact = w.cache.artifact)) ∨
    ∃ digest, w.cache.digest ≠ some digest ∧ world.cache = ⟨some digest, artifact⟩ ∧
      emit w.files options.outputFile artifact = .ok world.files := by
  obtain ⟨result, tried, rfl⟩ := generate_eq_some.mp generated
  cases tryGenerate_outcome tried with
  | cached digest read known => exact .inl ⟨rfl, rfl, .inr ⟨by simp [known], rfl⟩⟩
  | made digest artifact state files read new made written =>
    exact .inr ⟨digest, new, rfl, written⟩
  | failed e state => exact .inl ⟨rfl, rfl, .inl rfl⟩

theorem generate_cached {artifact : Text}
    (generated : g.generate options w = some (artifact, world)) (filled : artifact ≠ []) :
    world.cache.digest ≠ none ∧ world.cache.artifact = artifact := by
  rcases generate_cases generated with ⟨_, cache, either⟩ | ⟨digest, _, cache, _⟩
  · obtain ⟨cached, same⟩ := either.resolve_left filled
    rw [cache]
    exact ⟨cached, same.symm⟩
  · rw [cache]
    exact ⟨by simp, rfl⟩

theorem emit_eq_ok {fs more : Files} {path : Path} {artifact : Text} :
    emit fs (some path) artifact = .ok more ↔
      fs.write path (Utf8.encode artifact) = .ok more := mapError_eq_ok

theorem read_emit {fs more : Files} {output : Option Path} {path : Path} {artifact : Text}
    (chosen : output = some path) (emitted : emit fs output artifact = .ok more) :
    more.read path = .ok (Utf8.encode artifact) := by
  subst chosen
  exact Files.read_write (emit_eq_ok.mp emitted)

def silent : Compiler Unit where
  compile _ := return .ok []

/-- A library with one theme, and an empty style sheet of the user's. -/
def smallFiles : Files where
  entries := [(["l"], .directory), (["l", "style"], .directory),
    (["l", "style", "themes"], .directory), (["l", "style", "color"], .directory),
    (["l", "style", "themes", "default.less"], .file (Utf8.encode ".b\x7bcolor:red\x7d") false),
    (["l", "style", "color", "colors.less"], .file [] false),
    (["s"], .directory), (["s", "a.less"], .file [] false)]

def smallOptions : ThemeOptions where
  libraryStyles := some ⟨"l"⟩
  componentFile := some ⟨"l/style/color/colors.less"⟩
  styleDirs := [⟨"s"⟩]
  variableFile := some ⟨"l/style/themes/default.less"⟩
  outputFile := some ⟨"out.css"⟩

def smallGenerator : Generator Unit := { compiler := silent, draws := Draws.ofList #[] }

end Generator
end ColorTheme
