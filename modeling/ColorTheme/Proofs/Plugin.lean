import ColorTheme.Plugin
import ColorTheme.Proofs.Generation

/-!
The output file of the plugin over its runs. Between runs everything may be edited but the output
file. After a run with an artifact the file holds the artifact and the tag palette, unless the
artifact that was made last was the one emitted before it: then the generator has written the file
again, and nothing adds the palette. -/
namespace ColorTheme

namespace Plugin

variable {σ : Type}

/-- What a run can do: stop before it begins, answer nothing new, or emit an artifact and try to
add the palette. -/
inductive Ran (p : Plugin σ) (w : Generator.World σ) :
    Except Failure Text → Plugin σ → Generator.World σ → Prop
  | unprepared (e : Failure) : Ran p w (.error e) p w
  | same (files : Files) (artifact : Text) (world : Generator.World σ)
      (prepared : p.prepareOutput w.files = .ok files)
      (generated : p.generator.generate p.options.theme { w with files } = some (artifact, world))
      (old : artifact = [] ∨ artifact = p.emitted) : Ran p w (.ok artifact) p world
  | emitted (files : Files) (artifact : Text) (world : Generator.World σ)
      (appended : Except Failure Files)
      (prepared : p.prepareOutput w.files = .ok files)
      (generated : p.generator.generate p.options.theme { w with files } = some (artifact, world))
      (filled : artifact ≠ []) (new : artifact ≠ p.emitted)
      (tried : p.appendPalette world.files = appended) :
      Ran p w (appended.map fun _ => artifact) { p with emitted := artifact }
        { world with files := appended.toOption.getD world.files }

theorem run_ran {p after : Plugin σ} {w world : Generator.World σ} {result : Except Failure Text}
    (done : p.run w = some (result, after, world)) : Ran p w result after world := by
  simp only [run] at done
  split at done
  · rename_i e _
    cases done
    exact .unprepared e
  · rename_i files prepared
    obtain ⟨⟨artifact, world⟩, generated, done⟩ := Option.bind_eq_some_iff.mp done
    simp only at done
    split at done
    · rename_i old
      cases done
      exact .same files _ _ prepared generated (by simpa using old)
    · rename_i new
      simp only [Bool.or_eq_true, List.isEmpty_iff, decide_eq_true_eq, not_or] at new
      have ran := fun appended => Ran.emitted files _ _ appended prepared generated new.1 new.2
      split at done
      · rename_i e tried
        cases done
        exact ran (.error e) tried
      · rename_i more tried
        cases done
        exact ran (.ok more) tried

theorem Ran.answered {p after : Plugin σ} {w world : Generator.World σ}
    {result : Except Failure Text} (ran : Ran p w result after world) {artifact : Text}
    (answered : result = .ok artifact) (filled : artifact ≠ []) :
    world.cache.digest ≠ none ∧ world.cache.artifact = artifact := by
  cases ran with
  | unprepared e => contradiction
  | same files artifact world prepared generated old =>
    cases answered
    exact Generator.generate_cached generated filled
  | emitted files artifact world appended prepared generated full new tried =>
    cases appended with
    | error e => contradiction
    | ok more =>
      obtain rfl := Except.ok.inj answered
      have cached := Generator.generate_cached generated full
      exact cached

theorem read_prepareOutput {p : Plugin σ} {fs more : Files} {path : Path} {bytes : Bytes}
    (prepared : p.prepareOutput fs = .ok more) (there : fs.read path = .ok bytes) :
    more.read path = .ok bytes := by
  unfold prepareOutput at prepared
  split at prepared
  · cases prepared
    exact there
  · rename_i directory _
    split at prepared
    · cases prepared
      exact there
    · exact Files.read_makeDirectories (mapError_eq_ok.mp prepared) there

theorem read_appendPalette {p : Plugin σ} {out : Path} (output : p.outputFile = some out)
    {fs : Files} {text : Text} (there : fs.read out = .ok (Utf8.encode text)) :
    ∃ more, p.appendPalette fs = .ok more ∧
      more.read out = .ok (Utf8.encode (text ++ tagPaletteCss p.options.classPrefix)) := by
  obtain ⟨more, appended, read⟩ :=
    Files.read_append there (Utf8.encode (tagPaletteCss p.options.classPrefix))
  refine ⟨more, by simp [appendPalette, output, appended, mapError_ok], ?_⟩
  rw [read, Utf8.encode, Utf8.encode, Utf8.encode, List.flatMap_append]

end Plugin

/-- A plugin at work, with the files, the cache and the compiler that its runs share. -/
structure Session (σ : Type) where
  plugin : Plugin σ
  world : Generator.World σ
  /-- Whether the artifact that was made last is the one that was emitted before it. -/
  repeated : Bool := false

namespace Session

variable {σ : Type}

/-- The session after a run. The cached digest changes when an artifact is made. -/
def after (s : Session σ) (plugin : Plugin σ) (world : Generator.World σ) : Session σ where
  plugin := plugin
  world := world
  repeated := if world.cache.digest = s.world.cache.digest then s.repeated
    else decide (world.cache.artifact = s.plugin.emitted)

def run (s : Session σ) (draws : Draws) : Option (Except Failure Text × Session σ) :=
  (Plugin.run { s.plugin with generator := { s.plugin.generator with draws } } s.world).map
    fun (result, plugin, world) => (result, s.after plugin world)

def edit (s : Session σ) (files : Files) (state : σ) : Session σ :=
  { s with world := { s.world with files, state } }

/-- Sessions of a plugin as it was set up: runs, and between them edits of all files but the
output file. -/
inductive Reached (out : Path) : Session σ → Prop
  | start {g : Generator σ} {options : PluginOptions} {fs : Files} {p : Plugin σ} (state : σ)
      (created : Plugin.create g options fs = .ok p) (output : p.outputFile = some out) :
      Reached out { plugin := p, world := { files := fs, state } }
  | edit {s : Session σ} (files : Files) (state : σ) (reached : Reached out s)
      (untouched : files.read out = s.world.files.read out) :
      Reached out (s.edit files state)
  | run {s t : Session σ} {draws : Draws} {result : Except Failure Text} (reached : Reached out s)
      (ran : s.run draws = some (result, t)) : Reached out t

/-- What follows the artifact in the output file. -/
def tail (s : Session σ) : Text :=
  if s.repeated then [] else tagPaletteCss s.plugin.options.classPrefix

/-- A cached artifact was emitted, and the output file begins with it. -/
structure Kept (out : Path) (s : Session σ) : Prop where
  output : s.plugin.outputFile = some out
  held : s.world.cache.digest ≠ none → s.world.cache.artifact ≠ [] →
    s.plugin.emitted = s.world.cache.artifact ∧
      s.world.files.read out = .ok (Utf8.encode (s.world.cache.artifact ++ s.tail))

section Kept

variable {out : Path} {s t : Session σ} (kept : Kept out s)

include kept

theorem Kept.unchanged (options : t.plugin.options = s.plugin.options)
    (emitted : t.plugin.emitted = s.plugin.emitted) (cache : t.world.cache = s.world.cache)
    (repeated : t.repeated = s.repeated)
    (read : ∀ bytes, s.world.files.read out = .ok bytes → t.world.files.read out = .ok bytes) :
    Kept out t where
  output := by rw [Plugin.outputFile, options]; exact kept.output
  held cached filled := by
    rw [cache] at cached filled ⊢
    obtain ⟨remembered, holds⟩ := kept.held cached filled
    have tails : t.tail = s.tail := by simp [tail, options, repeated]
    exact ⟨emitted.trans remembered, tails ▸ read _ holds⟩

theorem Kept.run {draws : Draws} {result : Except Failure Text}
    (ran : s.run draws = some (result, t)) : Kept out t := by
  obtain ⟨⟨result, plugin, world⟩, done, same⟩ := Option.map_eq_some_iff.mp ran
  cases same
  cases Plugin.run_ran done with
  | unprepared e => exact kept.unchanged rfl rfl rfl (if_pos rfl) fun _ there => there
  | same files artifact world prepared generated old =>
    rcases Generator.generate_cases generated with ⟨still, cache, _⟩ | ⟨digest, new, cache, put⟩
    · refine kept.unchanged rfl rfl cache (if_pos (by rw [cache])) fun _ there => ?_
      rw [Session.after, still]
      exact Plugin.read_prepareOutput prepared there
    · -- The file is written anew, and nothing is added behind the artifact.
      have written := Generator.read_emit kept.output put
      refine ⟨kept.output, fun _ filled => ?_⟩
      simp only [Session.after, cache] at filled ⊢
      have again : artifact = s.plugin.emitted := old.resolve_left filled
      refine ⟨again.symm, ?_⟩
      rw [written]
      simp [tail, new.symm, again]
  | emitted files artifact world appended prepared generated filled new tried =>
    rcases Generator.generate_cases generated with ⟨_, _, either⟩ | ⟨digest, fresh, cache, put⟩
    · -- A cached artifact was emitted, so it is not new.
      obtain ⟨cached, same⟩ := either.resolve_left filled
      have known := (kept.held cached (same ▸ filled)).1
      exact absurd (same.trans known.symm) new
    · have written := Generator.read_emit kept.output put
      obtain ⟨more, added, read⟩ := Plugin.read_appendPalette kept.output written
      obtain rfl : appended = .ok more := tried.symm.trans added
      refine ⟨kept.output, fun _ _ => ⟨by rw [Session.after, cache], ?_⟩⟩
      simpa [Session.after, tail, cache, fresh.symm, new, Except.toOption] using read

end Kept

theorem Reached.kept {out : Path} {s : Session σ} (reached : Reached out s) : Kept out s := by
  induction reached with
  | start state created output => exact ⟨output, fun cached => absurd rfl cached⟩
  | edit files state _ untouched kept =>
    exact kept.unchanged rfl rfl rfl rfl fun _ there => untouched.trans there
  | run _ ran kept => exact kept.run ran

theorem palette_apart (artifact : Text) (classPrefix : Text) :
    Utf8.encode artifact ≠ Utf8.encode (artifact ++ tagPaletteCss classPrefix) := by
  intro same
  rw [Utf8.encode, Utf8.encode, List.flatMap_append] at same
  have empty := List.self_eq_append_right.mp same
  rw [tagPaletteCss, List.flatMap_cons] at empty
  have first : Utf8.encodeChar '\n' = [] := (List.append_eq_nil_iff.mp empty).1
  revert first
  decide

/-- After a run with an artifact the output file holds it and the palette, just if the artifact
made last is not the one emitted before it; else it holds the artifact alone. -/
theorem run_output {out : Path} {s t : Session σ} (reached : Reached out s) {draws : Draws}
    {artifact : Text} (answered : s.run draws = some (.ok artifact, t)) (filled : artifact ≠ []) :
    let palette := tagPaletteCss t.plugin.options.classPrefix
    (t.world.files.read out = .ok (Utf8.encode (artifact ++ palette)) ↔ t.repeated = false) ∧
      (t.repeated = true → t.world.files.read out = .ok (Utf8.encode artifact)) := by
  intro palette
  obtain ⟨⟨_, plugin, world⟩, done, given⟩ := Option.map_eq_some_iff.mp answered
  obtain ⟨known, same⟩ : t.world.cache.digest ≠ none ∧ t.world.cache.artifact = artifact := by
    cases given
    exact (Plugin.run_ran done).answered rfl filled
  obtain ⟨_, holds⟩ := (reached.kept.run answered).held known (same ▸ filled)
  rw [same] at holds
  cases repeated : t.repeated with
  | false =>
    have tails : t.tail = palette := by simp [tail, repeated, palette]
    exact ⟨⟨fun _ => rfl, fun _ => tails ▸ holds⟩, nofun⟩
  | true =>
    have tails : t.tail = [] := by simp [tail, repeated]
    have alone : t.world.files.read out = .ok (Utf8.encode artifact) := by
      rw [holds, tails, List.append_nil]
    refine ⟨⟨fun both => ?_, nofun⟩, fun _ => alone⟩
    exact absurd (Except.ok.inj (alone.symm.trans both)) (palette_apart artifact _)

def smallPlugin : Plugin Unit where
  options := { theme := Generator.smallOptions }
  themes := ⟨[(Themes.defaultName, {})]⟩
  ownValues := {}
  generator := Generator.smallGenerator

def small : Session Unit :=
  { plugin := smallPlugin, world := { files := Generator.smallFiles, state := () } }

/-- The session after the user's sheet got an empty line. -/
def sheetEdited (s : Session Unit) : Session Unit :=
  s.edit (s.world.files.put ["s", "a.less"] (.file [10] false)) ()

theorem small_reached : Reached ⟨"out.css"⟩ small :=
  have created : Plugin.create Generator.smallGenerator { theme := Generator.smallOptions }
    Generator.smallFiles = .ok smallPlugin := by rfl
  .start () created rfl

/-- The first run puts out the artifact with the palette. -/
theorem run_output_small :
    let artifact : Text := ".b\x7bcolor:red\x7d"
    Reached ⟨"out.css"⟩ small ∧ artifact ≠ [] ∧
      ∃ t, small.run (Draws.ofList #[]) = some (.ok artifact, t) ∧
        t.world.files.read ⟨"out.css"⟩ =
          .ok (Utf8.encode (artifact ++ tagPaletteCss t.plugin.options.classPrefix)) := by
  intro artifact
  have filled : artifact ≠ [] := by decide
  have evaluated : (small.run (Draws.ofList #[])).any (fun out =>
      decide (out.1 = .ok artifact) && !out.2.repeated) = true := by
    decide +kernel
  simp only [Option.any_eq_true, Bool.and_eq_true, decide_eq_true_eq, Bool.not_eq_true'] at evaluated
  obtain ⟨⟨_, t⟩, answered, rfl, single⟩ := evaluated
  exact ⟨small_reached, filled, t, answered, (run_output small_reached answered filled).1.mpr single⟩

/-- The palette is missing when an edit of a style sheet leaves the artifact as it was: the output
file need not hold the palette. -/
theorem run_output_unextended :
    ¬ ∀ (out : Path) (s t : Session Unit) (draws : Draws) (artifact : Text), Reached out s →
      s.run draws = some (.ok artifact, t) → artifact ≠ [] →
      t.world.files.read out =
        .ok (Utf8.encode (artifact ++ tagPaletteCss t.plugin.options.classPrefix)) := by
  intro always
  have evaluated : (small.run (Draws.ofList #[])).any (fun first =>
      decide ((sheetEdited first.2).world.files.read ⟨"out.css"⟩ =
        first.2.world.files.read ⟨"out.css"⟩) &&
      ((sheetEdited first.2).run (Draws.ofList #[])).any fun second =>
        decide (second.1 = .ok (".b\x7bcolor:red\x7d" : Text)) &&
        decide (second.2.world.files.read ⟨"out.css"⟩ =
          .ok (Utf8.encode ".b\x7bcolor:red\x7d"))) = true := by
    decide +kernel
  simp only [Option.any_eq_true, Bool.and_eq_true, decide_eq_true_eq] at evaluated
  obtain ⟨⟨_, first⟩, ran, untouched, ⟨_, second⟩, answered, rfl, alone⟩ := evaluated
  have both := always _ _ _ _ _ (.edit _ () (small_reached.run ran) untouched) answered (by decide)
  exact palette_apart _ _ (Except.ok.inj (alone.symm.trans both))

end Session
end ColorTheme
