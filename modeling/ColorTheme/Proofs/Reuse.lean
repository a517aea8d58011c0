import ColorTheme.Proofs.Cache
import ColorTheme.Text.Octets
import Mathlib.Data.List.Forall2
import Mathlib.Logic.Function.Basic

/-!
What a reused artifact was made from. The digest is taken of all sheets one after another, so with
a digest that tells all contents apart the sheets of a call that is answered from the cache say
together what the sheets said from which the artifact was made. They need not say it file by file:
text may have moved from the end of a sheet to the beginning of the next. -/
namespace ColorTheme

/-- The contents of files, one for each. -/
def Files.Hold (fs : Files) (paths : List Path) (parts : List Bytes) : Prop :=
  List.Forall₂ (fun path bytes => fs.read path = .ok bytes) paths parts

theorem UserSheet.contents_eq_ok {fs : Files} {paths : List Path} {bytes : Bytes} :
    contents fs paths = .ok bytes ↔ ∃ parts, fs.Hold paths parts ∧ parts.flatten = bytes := by
  induction paths generalizing bytes with
  | nil =>
    constructor
    · intro empty
      cases empty
      exact ⟨[], .nil, rfl⟩
    · rintro ⟨parts, held, rfl⟩
      cases held
      rfl
  | cons path rest ih =>
    constructor
    · intro read
      cases first : fs.read path with
      | error e => simp [contents, first, mapError_error, bind, Except.bind] at read
      | ok front =>
        cases later : contents fs rest with
        | error e => simp [contents, first, later, mapError_ok, bind, Except.bind] at read
        | ok back =>
          simp only [contents, first, later, mapError_ok, bind, Except.bind] at read
          cases read
          obtain ⟨parts, held, rfl⟩ := ih.mp later
          exact ⟨front :: parts, .cons first held, rfl⟩
    · rintro ⟨parts, held, rfl⟩
      cases held with
      | @cons _ front _ parts first held =>
        have later := ih.mpr ⟨parts, held, rfl⟩
        simp only [contents, first, later, mapError_ok, bind, Except.bind]
        rfl

theorem UserSheet.digest_eq_ok {hash : Hash} {fs : Files} {paths : List Path} {digest : Text} :
    UserSheet.digest hash fs paths = .ok digest ↔
      ∃ parts, fs.Hold paths parts ∧ hash parts.flatten = digest := by
  unfold UserSheet.digest
  constructor
  · intro taken
    cases read : contents fs paths with
    | error e => simp [read, Except.map] at taken
    | ok bytes =>
      obtain ⟨parts, held, rfl⟩ := contents_eq_ok.mp read
      simp only [read, Except.map, Except.ok.injEq] at taken
      exact ⟨parts, held, taken⟩
  · rintro ⟨parts, held, rfl⟩
    rw [contents_eq_ok.mpr ⟨parts, held, rfl⟩]
    rfl

namespace Generator

variable {σ : Type}

def Event.Hashes (hash : UserSheet.Hash) : Event σ → Prop
  | .tryGenerate g _ | .generate g _ => g.hash = hash
  | _ => True

/-- A call that is answered from the cache. -/
def Hit (g : Generator σ) (options : ThemeOptions) (w : World σ) : Prop :=
  ∃ digest, g.sheetDigest options w.files = .ok digest ∧ w.cache.digest = some digest

/-- A call that makes an artifact: it succeeds with sheets that have another digest. -/
def makes (g : Generator σ) (options : ThemeOptions) (w : World σ) : Bool :=
  (g.success? options w).any fun (digest, _) => w.cache.digest ≠ some digest

/-- The call that made what is cached, and the world that it met. -/
def maker? (start : World σ) : List (Event σ) → Option (Generator σ × ThemeOptions × World σ)
  | [] => none
  | .edit _ _ :: earlier => maker? start earlier
  | .clear :: _ => none
  | .tryGenerate g options :: earlier | .generate g options :: earlier =>
    match (worldAfter start earlier).filter (g.makes options) with
    | some w => some (g, options, w)
    | none => maker? start earlier

/-- A call met a world in which it made this artifact from sheets with this digest. -/
structure MadeIn (hash : UserSheet.Hash) (digest artifact : Text)
    (call : Generator σ × ThemeOptions × World σ) : Prop where
  hashed : call.1.hash = hash
  read : call.1.sheetDigest call.2.1 call.2.2.files = .ok digest
  made : ∃ state, (call.1.make call.2.2.files call.2.1
    (UserSheet.collect call.2.2.files call.2.1.styleDirs)).run call.2.2.state =
      some (.ok artifact, state)

section Made

variable {g : Generator σ} {options : ThemeOptions} {w after : World σ}
  {result : Except Failure Text} (tried : g.tryGenerate options w = some (result, after))

include tried

theorem cache_made (anew : g.makes options w = true) {digest : Text}
    (known : after.cache.digest = some digest) :
    MadeIn g.hash digest after.cache.artifact (g, options, w) := by
  cases tryGenerate_outcome tried with
  | cached found read cached =>
    have reused : g.makes options w = false := by
      simp [makes, success?, sheetDigest, read, tried, cached]
    exact absurd (anew.symm.trans reused) (by decide)
  | made found artifact state files read new made written =>
    cases known
    exact ⟨rfl, read, state, made⟩
  | failed e state =>
    have missing : g.success? options w = none := by
      simp only [success?, tried]
      split <;> simp_all
    simp [makes, missing] at anew

theorem cache_reused (reused : g.makes options w = false) : after.cache = w.cache := by
  cases tryGenerate_outcome tried with
  | cached digest read known => rfl
  | made digest artifact state files read new made written =>
    have anew : g.makes options w = true := by
      simp [makes, success?, sheetDigest, read, tried, new]
    exact absurd (reused.symm.trans anew) (by decide)
  | failed e state => rfl

end Made

/-- What is cached was made by the call that is its maker. -/
theorem maker_cached {start : World σ} (empty : start.cache = {}) {events : List (Event σ)}
    {w : World σ} (reached : worldAfter start events = some w) :
    ∀ digest, w.cache.digest = some digest → ∃ call, maker? start events = some call ∧
      MadeIn call.1.hash digest w.cache.artifact call := by
  refine worldAfter_induction (P := fun events w => ∀ digest, w.cache.digest = some digest →
    ∃ call, maker? start events = some call ∧ MadeIn call.1.hash digest w.cache.artifact call)
    ?_ (fun _ _ _ _ _ made => made) (fun _ _ _ _ => nofun) ?_ reached
  · rw [empty]
    exact nofun
  · intro earlier w g options result after past made tried
    have called : ∀ digest, after.cache.digest = some digest →
        ∃ call, (match (worldAfter start earlier).filter (g.makes options) with
            | some w => some (g, options, w)
            | none => maker? start earlier) = some call ∧
          MadeIn call.1.hash digest after.cache.artifact call := by
      intro digest known
      rw [past]
      cases makes : g.makes options w with
      | true =>
        rw [Option.filter_some_pos makes]
        exact ⟨_, rfl, cache_made tried makes known⟩
      | false =>
        rw [cache_reused tried makes] at known ⊢
        simpa [Option.filter_some, makes] using made digest known
    exact ⟨called, called⟩

theorem maker_hashed {hash : UserSheet.Hash} {start : World σ} {events : List (Event σ)}
    (hashed : ∀ event ∈ events, event.Hashes hash) {call : Generator σ × ThemeOptions × World σ}
    (found : maker? start events = some call) : call.1.hash = hash := by
  induction events with
  | nil => cases found
  | cons event earlier ih =>
    obtain ⟨own, before⟩ := List.forall_mem_cons.mp hashed
    have called : ∀ (g : Generator σ) (options : ThemeOptions), g.hash = hash →
        (match (worldAfter start earlier).filter (g.makes options) with
          | some w => some (g, options, w)
          | none => maker? start earlier) = some call → call.1.hash = hash := by
      intro g options same found
      split at found
      · cases found
        exact same
      · exact ih before found
    cases event with
    | edit files state => exact ih before found
    | clear => cases found
    | tryGenerate g options => exact called g options own found
    | generate g options => exact called g options own found

theorem maker_made {hash : UserSheet.Hash} {start : World σ} (empty : start.cache = {})
    {events : List (Event σ)} (hashed : ∀ event ∈ events, event.Hashes hash) {w : World σ}
    (reached : worldAfter start events = some w) {digest : Text}
    (known : w.cache.digest = some digest) :
    ∃ call, maker? start events = some call ∧ MadeIn hash digest w.cache.artifact call := by
  obtain ⟨call, found, made⟩ := maker_cached empty reached digest known
  have own : call.1.hash = hash := maker_hashed hashed found
  exact ⟨call, found, own ▸ made⟩

/-- A call that is answered from the cache finds sheets that say, one after another, what the
sheets said from which the artifact was made; file by file if no sheet changed its length. -/
theorem hit_contents {hash : UserSheet.Hash} (injective : Function.Injective hash) (files : Files)
    (state : σ) {events : List (Event σ)} (hashed : ∀ event ∈ events, event.Hashes hash)
    {w : World σ} (reached : worldAfter { files, state } events = some w)
    {g : Generator σ} (own : g.hash = hash) {options : ThemeOptions} (hit : g.Hit options w) :
    g.tryGenerate options w = some (.ok w.cache.artifact, w) ∧
      ∃ maker earlierOptions origin parts earlierParts,
        maker? { files, state } events = some (maker, earlierOptions, origin) ∧
        (∃ after, (maker.make origin.files earlierOptions
          (UserSheet.collect origin.files earlierOptions.styleDirs)).run origin.state =
            some (.ok w.cache.artifact, after)) ∧
        origin.files.Hold (UserSheet.collect origin.files earlierOptions.styleDirs) earlierParts ∧
        w.files.Hold (UserSheet.collect w.files options.styleDirs) parts ∧
        parts.flatten = earlierParts.flatten ∧
        (parts.map List.length = earlierParts.map List.length → parts = earlierParts) := by
  obtain ⟨digest, read, known⟩ := hit
  obtain ⟨⟨maker, earlierOptions, origin⟩, found, made⟩ := maker_made rfl hashed reached known
  obtain ⟨parts, held, taken⟩ := UserSheet.digest_eq_ok.mp read
  obtain ⟨earlierParts, earlierHeld, earlierTaken⟩ := UserSheet.digest_eq_ok.mp made.read
  have same : parts.flatten = earlierParts.flatten := by
    apply injective
    rw [← own, taken, own, ← made.hashed, earlierTaken]
  refine ⟨?_, maker, earlierOptions, origin, parts, earlierParts, found, made.made, earlierHeld,
    held, same, ?_⟩
  · exact ((g.accounted options w).hit digest read known g.compiler).1
  · intro lengths
    exact List.eq_iff_flatten_eq.mpr ⟨same, lengths⟩

/-- A line that stands in the first of two sheets or in the second. -/
def twoSheets (first second : Bytes) : Files :=
  (smallFiles.put ["s", "a.less"] (.file first false)).put ["s", "b.less"] (.file second false)

def plainGenerator : Generator Unit := { smallGenerator with hash := Octets.ofBytes }

def movedStart : World Unit := { files := twoSheets [10] [], state := () }

/-- The line moves to the second sheet after an artifact was made. -/
def movedEvents : List (Event Unit) :=
  [.edit (twoSheets [] [10]) (), .tryGenerate plainGenerator smallOptions]

theorem ofBytes_injective : Function.Injective Octets.ofBytes :=
  Function.LeftInverse.injective Octets.toBytes_ofBytes

theorem movedEvents_hashed : ∀ event ∈ movedEvents, event.Hashes Octets.ofBytes := by
  simp [movedEvents, Event.Hashes, plainGenerator]

theorem collect_twoSheets (first second : Bytes) :
    UserSheet.collect (twoSheets first second) smallOptions.styleDirs =
      [⟨"s/a.less"⟩, ⟨"s/b.less"⟩] := by
  rfl

theorem twoSheets_hold (first second : Bytes) : (twoSheets first second).Hold
    (UserSheet.collect (twoSheets first second) smallOptions.styleDirs) [first, second] := by
  rw [collect_twoSheets]
  exact .cons rfl (.cons rfl .nil)

theorem movedEvents_reached : ∃ w, worldAfter movedStart movedEvents = some w ∧
    plainGenerator.Hit smallOptions w ∧ w.files = twoSheets [] [10] ∧
    w.cache.artifact = (".b\x7bcolor:red\x7d" : Text) := by
  have evaluated : (plainGenerator.tryGenerate smallOptions movedStart).any (fun out =>
      decide (out.2.cache = ⟨some ("\n" : Text), (".b\x7bcolor:red\x7d" : Text)⟩)) = true := by
    decide +kernel
  simp only [Option.any_eq_true, decide_eq_true_eq] at evaluated
  obtain ⟨⟨_, w⟩, tried, cache⟩ := evaluated
  have reached : worldAfter movedStart movedEvents =
      some { w with files := twoSheets [] [10], state := () } := by
    simp [worldAfter, movedEvents, Event.run, tried]
  have read : plainGenerator.sheetDigest smallOptions (twoSheets [] [10]) = .ok "\n" := by
    decide +kernel
  exact ⟨_, reached, ⟨"\n", read, by rw [cache]⟩, rfl, by rw [cache]⟩

theorem movedEvents_made : maker? movedStart movedEvents =
    some (plainGenerator, smallOptions, movedStart) := by
  have anew : plainGenerator.makes smallOptions movedStart = true := by
    decide +kernel
  simp [maker?, movedEvents, worldAfter, Option.filter_some, anew]

theorem hit_contents_line : ∃ w, worldAfter movedStart movedEvents = some w ∧
    Function.Injective Octets.ofBytes ∧
      (∀ event ∈ movedEvents, event.Hashes Octets.ofBytes) ∧
      plainGenerator.hash = Octets.ofBytes ∧ plainGenerator.Hit smallOptions w ∧
      w.cache.artifact = (".b\x7bcolor:red\x7d" : Text) ∧
      plainGenerator.tryGenerate smallOptions w = some (.ok w.cache.artifact, w) ∧
      ∃ parts earlierParts,
        movedStart.files.Hold (UserSheet.collect movedStart.files smallOptions.styleDirs)
          earlierParts ∧
        w.files.Hold (UserSheet.collect w.files smallOptions.styleDirs) parts ∧
        parts.flatten = earlierParts.flatten := by
  obtain ⟨w, reached, hit, _, artifact⟩ := movedEvents_reached
  obtain ⟨answered, maker, options, origin, parts, earlierParts, found, _, earlier, held, same, _⟩ :=
    hit_contents ofBytes_injective (twoSheets [10] []) () movedEvents_hashed reached rfl hit
  cases movedEvents_made.symm.trans found
  exact ⟨w, reached, ofBytes_injective, movedEvents_hashed, rfl, hit, artifact, answered, parts,
    earlierParts, earlier, held, same⟩

/-- The sheets of a call that is answered from the cache need not say file by file what the sheets
said from which the artifact was made. -/
theorem hit_contents_moved :
    ¬ ∀ (hash : UserSheet.Hash), Function.Injective hash →
      ∀ (files : Files) (events : List (Event Unit)), (∀ event ∈ events, event.Hashes hash) →
      ∀ (w : World Unit), worldAfter { files, state := () } events = some w →
      ∀ (g : Generator Unit) (options : ThemeOptions), g.hash = hash →
      g.Hit options w → ∀ maker earlierOptions origin,
        maker? { files, state := () } events = some (maker, earlierOptions, origin) →
        ∀ parts earlierParts,
          w.files.Hold (UserSheet.collect w.files options.styleDirs) parts →
          origin.files.Hold (UserSheet.collect origin.files earlierOptions.styleDirs) earlierParts →
          parts = earlierParts := by
  intro kept
  obtain ⟨w, reached, hit, files, _⟩ := movedEvents_reached
  have same := kept _ ofBytes_injective (twoSheets [10] []) movedEvents movedEvents_hashed w reached
    plainGenerator smallOptions rfl hit _ _ _ movedEvents_made _ _
    (files ▸ twoSheets_hold [] [10]) (twoSheets_hold [10] [])
  exact absurd same (by decide)

end Generator
end ColorTheme
