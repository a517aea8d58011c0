import ColorTheme.Proofs.Generation

/-!
The cache over a history of calls. Whatever is edited, cleared and generated, the cache holds the
digest and the artifact of the last call that succeeded since it was cleared. A call answers from
it and does nothing else, or fails and leaves it, or puts a new artifact into it and into the
output file. -/
namespace ColorTheme

def Cache.holding : Option (Text × Text) → Cache
  | none => {}
  | some (digest, artifact) => ⟨some digest, artifact⟩

namespace Generator

variable {σ : Type}

def sheetDigest (g : Generator σ) (options : ThemeOptions) (fs : Files) : Except Failure Text :=
  UserSheet.digest g.hash fs (UserSheet.collect fs options.styleDirs)

/-- What may happen around a cache. Files may be edited, and with them what the compiler does; each
call may be one of another generator with other options. -/
inductive Event (σ : Type)
  | edit (files : Files) (state : σ)
  | clear
  | tryGenerate (g : Generator σ) (options : ThemeOptions)
  | generate (g : Generator σ) (options : ThemeOptions)

/-- The world after an event, if the event has an end. -/
def Event.run (w : World σ) : Event σ → Option (World σ)
  | .edit files state => some { w with files, state }
  | .clear => some { w with cache := {} }
  | .tryGenerate g options => (g.tryGenerate options w).map Prod.snd
  | .generate g options => (g.generate options w).map Prod.snd

/-- The world after some events, the latest of which comes first, if all have an end. -/
def worldAfter (start : World σ) : List (Event σ) → Option (World σ)
  | [] => some start
  | event :: earlier => (worldAfter start earlier).bind event.run

def success? (g : Generator σ) (options : ThemeOptions) (w : World σ) : Option (Text × Text) :=
  match g.sheetDigest options w.files, g.tryGenerate options w with
  | .ok digest, some (.ok artifact, _) => some (digest, artifact)
  | _, _ => none

/-- The last success since the cache was cleared. -/
def latest? (start : World σ) : List (Event σ) → Option (Text × Text)
  | [] => none
  | .edit _ _ :: earlier => latest? start earlier
  | .clear :: _ => none
  | .tryGenerate g options :: earlier | .generate g options :: earlier =>
    ((worldAfter start earlier).bind (g.success? options)).or (latest? start earlier)

theorem generate_world (g : Generator σ) (options : ThemeOptions) (w : World σ) :
    (g.generate options w).map Prod.snd = (g.tryGenerate options w).map Prod.snd := by
  rw [generate, Option.map_map]
  rfl

theorem worldAfter_induction {start : World σ} {P : List (Event σ) → World σ → Prop}
    (begins : P [] start)
    (edit : ∀ earlier w files state, worldAfter start earlier = some w → P earlier w →
      P (.edit files state :: earlier) { w with files, state })
    (clear : ∀ earlier w, worldAfter start earlier = some w → P earlier w →
      P (.clear :: earlier) { w with cache := {} })
    (call : ∀ earlier w g options result after, worldAfter start earlier = some w → P earlier w →
      g.tryGenerate options w = some (result, after) →
      P (.tryGenerate g options :: earlier) after ∧ P (.generate g options :: earlier) after)
    {events : List (Event σ)} {w : World σ} (reached : worldAfter start events = some w) :
    P events w := by
  induction events generalizing w with
  | nil =>
    cases reached
    exact begins
  | cons event earlier ih =>
    obtain ⟨before, past, ran⟩ := Option.bind_eq_some_iff.mp reached
    cases event with
    | edit files state =>
      cases ran
      exact edit earlier before files state past (ih past)
    | clear =>
      cases ran
      exact clear earlier before past (ih past)
    | tryGenerate g options =>
      obtain ⟨⟨result, _⟩, tried, rfl⟩ := Option.map_eq_some_iff.mp ran
      exact (call earlier before g options result _ past (ih past) tried).1
    | generate g options =>
      rw [Event.run, generate_world] at ran
      obtain ⟨⟨result, _⟩, tried, rfl⟩ := Option.map_eq_some_iff.mp ran
      exact (call earlier before g options result _ past (ih past) tried).2

theorem cache_tryGenerate {g : Generator σ} {options : ThemeOptions} {w world : World σ}
    {result : Except Failure Text} (tried : g.tryGenerate options w = some (result, world)) :
    world.cache =
      match g.success? options w with
      | some success => Cache.holding (some success)
      | none => w.cache := by
  cases tryGenerate_outcome tried with
  | cached digest read known =>
    simp only [success?, sheetDigest, read, tried, Cache.holding, ← known]
  | made digest artifact state files read new made written =>
    simp only [success?, sheetDigest, read, tried, Cache.holding]
  | failed e state =>
    simp only [success?, tried]
    split <;> simp_all

theorem cache_after {start : World σ} (empty : start.cache = {}) {events : List (Event σ)}
    {w : World σ} (reached : worldAfter start events = some w) :
    w.cache = Cache.holding (latest? start events) := by
  refine worldAfter_induction (P := fun events w => w.cache = Cache.holding (latest? start events))
    empty (fun _ _ _ _ _ same => same) (fun _ _ _ _ => rfl) ?_ reached
  intro earlier w g options result after past same tried
  have held : after.cache = Cache.holding
      (((worldAfter start earlier).bind (g.success? options)).or (latest? start earlier)) := by
    rw [cache_tryGenerate tried, same, past, Option.bind_some]
    cases g.success? options w <;> rfl
  exact ⟨held, held⟩

/-- The artifact is all that changes: it is what the output file holds, if there is one, and every
other place holds what it held. -/
def PutOut (output : Option Path) (artifact : Text) (before after : Files) : Prop :=
  match output with
  | none => after = before
  | some path => after.read path = .ok (Utf8.encode artifact) ∧
      ∃ place, after.locate path = .ok place ∧
        ∀ other, other ≠ place → after.at? other = before.at? other

theorem emit_putOut {output : Option Path} {artifact : Text} {before after : Files}
    (emitted : emit before output artifact = .ok after) : PutOut output artifact before after := by
  cases output with
  | none => exact (Except.ok.inj emitted).symm
  | some path => exact ⟨read_emit rfl emitted, Files.write_place (emit_eq_ok.mp emitted)⟩

/-- What a call does, by the cache that it meets. -/
structure Accounted (g : Generator σ) (options : ThemeOptions) (w : World σ) : Prop where
  /-- A known digest is answered from the cache, whatever the compiler is. -/
  hit : ∀ digest, g.sheetDigest options w.files = .ok digest → w.cache.digest = some digest →
    ∀ compiler, tryGenerate { g with compiler } options w = some (.ok w.cache.artifact, w) ∧
      generate { g with compiler } options w = some (w.cache.artifact, w)
  /-- A failure leaves the cache, and the files unless they could not be written. -/
  failed : ∀ e world, g.tryGenerate options w = some (.error e, world) →
    world.cache = w.cache ∧ ((∀ path cause, e ≠ .write path cause) → world.files = w.files) ∧
      g.generate options w = some ([], world)
  /-- Another artifact than the cached one is put into the cache and into the output file. -/
  missed : ∀ artifact world, g.tryGenerate options w = some (.ok artifact, world) →
    (∀ digest, g.sheetDigest options w.files = .ok digest → w.cache.digest ≠ some digest) →
      ∃ digest, g.sheetDigest options w.files = .ok digest ∧
        world.cache = ⟨some digest, artifact⟩ ∧
        PutOut options.outputFile artifact w.files world.files ∧
        g.generate options w = some (artifact, world)

theorem accounted (g : Generator σ) (options : ThemeOptions) (w : World σ) :
    g.Accounted options w where
  hit digest read known compiler := by
    have tried : tryGenerate { g with compiler } options w = some (.ok w.cache.artifact, w) := by
      simp only [sheetDigest] at read
      simp only [tryGenerate, read, Cache.lookup_eq_some.mpr ⟨known, rfl⟩]
    exact ⟨tried, generate_eq_some.mpr ⟨_, tried, rfl⟩⟩
  failed e world tried := by
    have answered : g.generate options w = some ([], world) :=
      generate_eq_some.mpr ⟨_, tried, rfl⟩
    cases tryGenerate_outcome tried with
    | failed e state => exact ⟨rfl, fun _ => rfl, answered⟩
  missed artifact world tried missed := by
    have answered : g.generate options w = some (artifact, world) :=
      generate_eq_some.mpr ⟨_, tried, rfl⟩
    cases tryGenerate_outcome tried with
    | cached digest read known => exact absurd known (missed digest read)
    | made digest artifact state files read new made written =>
      exact ⟨digest, read, rfl, emit_putOut written, answered⟩

/-- At any moment of a history that starts with an empty cache, the cache holds the last success
since it was cleared, and the next call is accounted for by it. -/
theorem history_accounted (files : Files) (state : σ) {events : List (Event σ)} {w : World σ}
    (reached : worldAfter { files, state } events = some w) :
    w.cache = Cache.holding (latest? { files, state } events) ∧
      ∀ (g : Generator σ) (options : ThemeOptions), g.Accounted options w :=
  ⟨cache_after rfl reached, fun g options => g.accounted options w⟩

/-- A call that finds nothing in the cache puts its artifact there and out, and the next one answers
it without a compiler. -/
theorem history_accounted_reused :
    let start : World Unit := { files := smallFiles, state := () }
    let call : Event Unit := .tryGenerate smallGenerator smallOptions
    let artifact : Text := ".b\x7bcolor:red\x7d"
    ∃ digest w, worldAfter start [call] = some w ∧
      smallGenerator.sheetDigest smallOptions start.files = .ok digest ∧
      w.cache = ⟨some digest, artifact⟩ ∧
      PutOut smallOptions.outputFile artifact start.files w.files ∧
      smallGenerator.sheetDigest smallOptions w.files = .ok digest ∧
      (∀ compiler, tryGenerate { smallGenerator with compiler } smallOptions w =
        some (.ok artifact, w)) ∧
      worldAfter start [call, call] = some w := by
  intro start call artifact
  have evaluated : (smallGenerator.tryGenerate smallOptions start).any (fun out =>
      decide (out.1 = .ok artifact) &&
        decide (smallGenerator.sheetDigest smallOptions out.2.files =
          smallGenerator.sheetDigest smallOptions start.files)) = true := by
    decide +kernel
  simp only [Option.any_eq_true, Bool.and_eq_true, decide_eq_true_eq] at evaluated
  obtain ⟨⟨_, w⟩, tried, rfl, unchanged⟩ := evaluated
  have first : worldAfter start [call] = some w := by
    simp [worldAfter, Event.run, call, tried]
  have nothing : worldAfter { files := smallFiles, state := () } ([] : List (Event Unit)) =
      some start := rfl
  have accountedFirst := (history_accounted smallFiles () nothing).2 smallGenerator smallOptions
  obtain ⟨digest, read, cache, put, _⟩ := accountedFirst.missed artifact w tried nofun
  have readAgain := unchanged.trans read
  have answered := ((history_accounted smallFiles () first).2 smallGenerator smallOptions).hit digest
    readAgain (by rw [cache])
  have again : smallGenerator.tryGenerate smallOptions w = some (.ok w.cache.artifact, w) :=
    (answered silent).1
  have second : worldAfter start [call, call] = some w := by
    rw [worldAfter, first, Option.bind_some, Event.run, again]
    rfl
  exact ⟨digest, w, first, read, cache, put, readAgain,
    fun compiler => by simpa only [cache] using (answered compiler).1, second⟩

end Generator
end ColorTheme
