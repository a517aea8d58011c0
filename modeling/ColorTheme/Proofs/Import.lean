import ColorTheme.Import
import ColorTheme.Proofs.Path
import Mathlib.Data.List.Nodup
import Mathlib.Logic.Relation

/-!
Imports and their expansion. Each file being expanded has a place of its own in the tree, so the
expansion ends without the bound on its depth; it has a text exactly where all that is imported
can be read and nothing imports itself, and that text has every import in its place. -/
namespace ColorTheme

namespace Files

theorem readText_eq_ok {fs : Files} {path : Path} {content : Text} :
    fs.readText path = .ok content ↔
      ∃ bytes, fs.read path = .ok bytes ∧ Utf8.decode? bytes = some content := by
  unfold readText
  cases fs.read path with
  | error e => simp [bind, Except.bind]
  | ok bytes =>
    simp only [bind, Except.bind, Except.ok.injEq, exists_eq_left']
    cases Utf8.decode? bytes with
    | none => simp [throw, throwThe, MonadExceptOf.throw]
    | some text => simp [pure, Except.pure]

theorem locate_of_readText {fs : Files} {path : Path} {content : Text}
    (known : fs.readText path = .ok content) : ∃ place, fs.locate path = .ok place ∧
      fs.isDirectory place = false ∧ place ∈ fs.entries.map Prod.fst := by
  obtain ⟨bytes, there, _⟩ := readText_eq_ok.mp known
  obtain ⟨place, executable, found, file⟩ := read_eq_ok.mp there
  refine ⟨place, found, by simp [isDirectory, file], ?_⟩
  rcases mem_of_at? file with rfl | member
  · simp [at?] at file
  · exact member

theorem readText_congr {fs : Files} {path other : Path} (same : fs.locate path = fs.locate other) :
    fs.readText path = fs.readText other := by simp only [readText, read, same]

end Files

namespace Import

section Equations

variable {fs : Files} {root path : Path} {expand : Path → Except Failure Text} {line : Text}
  {rest : List Text}

theorem expandLines_kept (plain : isImportLine line = false) :
    expandLines expand path root (line :: rest) =
      (expandLines expand path root rest).map (line :: ·) := by
  simp only [expandLines, plain]
  cases expandLines expand path root rest <;> rfl

theorem expandLines_malformed (imports : isImportLine line = true)
    (unquoted : target? line = none) :
    expandLines expand path root (line :: rest) =
      .error (.malformedImport path (Text.trim line)) := by
  simp only [expandLines, imports, unquoted]
  rfl

theorem expandLines_imported {target : Text} (imports : isImportLine line = true)
    (quoted : target? line = some target) :
    expandLines expand path root (line :: rest) =
      (expand (resolve target path.directory root)).bind fun text =>
        (expandLines expand path root rest).map (text :: ·) := by
  simp only [expandLines, imports, quoted]
  cases expand (resolve target path.directory root) with
  | error failure => rfl
  | ok text => cases expandLines expand path root rest <;> rfl

theorem expandFile_repeated {depth : Nat} {trail : Trail}
    (known : trail.any (Path.same (key fs path)) = true) :
    expandFile fs root depth trail path =
      .error (.cycle ((trail ++ [key fs path]).map Path.text)) := by
  cases depth with
  | zero => rfl
  | succ depth => simp [expandFile, known]

theorem expandFile_new {depth : Nat} {trail : Trail}
    (new : trail.any (Path.same (key fs path)) = false) :
    expandFile fs root (depth + 1) trail path = (fs.readSource path).bind fun content =>
      (expandLines (expandFile fs root depth (trail ++ [key fs path])) path root
        (Text.lines content)).map Text.joinLines := by
  simp only [expandFile, new]
  cases fs.readSource path with
  | error failure => rfl
  | ok content =>
    cases expandLines (expandFile fs root depth (trail ++ [key fs path])) path root
      (Text.lines content) <;> rfl

end Equations

mutual

/-- The expansion of a file as it runs, with no bound on its depth. A run is finite. -/
inductive Runs (fs : Files) (root : Path) : Trail → Path → Except Failure Text → Prop
  | repeated {trail : Trail} {path : Path} :
      trail.any (Path.same (key fs path)) = true →
      Runs fs root trail path (.error (.cycle ((trail ++ [key fs path]).map Path.text)))
  | unreadable {trail : Trail} {path : Path} {failure : Failure} :
      trail.any (Path.same (key fs path)) = false →
      fs.readSource path = .error failure →
      Runs fs root trail path (.error failure)
  | file {trail : Trail} {path : Path} {content : Text} {result : Except Failure (List Text)} :
      trail.any (Path.same (key fs path)) = false →
      fs.readSource path = .ok content →
      RunsLines fs root (trail ++ [key fs path]) path (Text.lines content) result →
      Runs fs root trail path (result.map Text.joinLines)

inductive RunsLines (fs : Files) (root : Path) :
    Trail → Path → List Text → Except Failure (List Text) → Prop
  | done {trail : Trail} {path : Path} : RunsLines fs root trail path [] (.ok [])
  | kept {trail : Trail} {path : Path} {line : Text} {rest : List Text}
      {result : Except Failure (List Text)} :
      isImportLine line = false →
      RunsLines fs root trail path rest result →
      RunsLines fs root trail path (line :: rest) (result.map (line :: ·))
  | malformed {trail : Trail} {path : Path} {line : Text} {rest : List Text} :
      isImportLine line = true →
      target? line = none →
      RunsLines fs root trail path (line :: rest) (.error (.malformedImport path (Text.trim line)))
  | failed {trail : Trail} {path : Path} {line target : Text} {rest : List Text}
      {failure : Failure} :
      isImportLine line = true →
      target? line = some target →
      Runs fs root trail (resolve target path.directory root) (.error failure) →
      RunsLines fs root trail path (line :: rest) (.error failure)
  | imported {trail : Trail} {path : Path} {line target text : Text} {rest : List Text}
      {result : Except Failure (List Text)} :
      isImportLine line = true →
      target? line = some target →
      Runs fs root trail (resolve target path.directory root) (.ok text) →
      RunsLines fs root trail path rest result →
      RunsLines fs root trail path (line :: rest) (result.map (text :: ·))

end

theorem runsLines_iff {fs : Files} {root path : Path} {trail : Trail}
    {expand : Path → Except Failure Text}
    (runs : ∀ path result, Runs fs root trail path result ↔ result = expand path)
    (lines : List Text) (result : Except Failure (List Text)) :
    RunsLines fs root trail path lines result ↔ result = expandLines expand path root lines := by
  induction lines generalizing result with
  | nil =>
    constructor
    · intro run
      cases run
      rfl
    · rintro rfl
      exact .done
  | cons line rest ih =>
    constructor
    · intro run
      cases run with
      | kept plain later => rw [expandLines_kept plain, (ih _).mp later]
      | malformed imports unquoted => rw [expandLines_malformed imports unquoted]
      | failed imports quoted first =>
        rw [expandLines_imported imports quoted, ← (runs _ _).mp first]
        rfl
      | imported imports quoted first later =>
        rw [expandLines_imported imports quoted, ← (runs _ _).mp first, (ih _).mp later]
        rfl
    · rintro rfl
      cases imports : isImportLine line with
      | false =>
        rw [expandLines_kept imports]
        exact .kept imports ((ih _).mpr rfl)
      | true =>
        cases quoted : target? line with
        | none =>
          rw [expandLines_malformed imports quoted]
          exact .malformed imports quoted
        | some target =>
          rw [expandLines_imported imports quoted]
          cases first : expand (resolve target path.directory root) with
          | error failure => exact .failed imports quoted ((runs _ _).mpr first.symm)
          | ok text => exact .imported imports quoted ((runs _ _).mpr first.symm) ((ih _).mpr rfl)

/-- The files being expanded are distinct files of the tree. -/
structure Placed (fs : Files) (trail : Trail) (places : List Location) : Prop where
  spelled : trail = places.map Files.spell
  distinct : places.Nodup
  present : places ⊆ fs.entries.map Prod.fst

theorem Placed.length_le {fs : Files} {trail : Trail} {places : List Location}
    (placed : Placed fs trail places) : trail.length ≤ fs.entries.length := by
  have bound := placed.distinct.length_le_of_subset placed.present
  rwa [placed.spelled, List.length_map, ← List.length_map Prod.fst]

theorem key_eq {fs : Files} {path : Path} {place : Location} (found : fs.locate path = .ok place) :
    key fs path = Files.spell place := by simp [key, found]

theorem Placed.extend {fs : Files} {trail : Trail} {places : List Location} {path : Path}
    {place : Location} (placed : Placed fs trail places)
    (new : trail.any (Path.same (key fs path)) = false) (found : fs.locate path = .ok place)
    (present : place ∈ fs.entries.map Prod.fst) :
    Placed fs (trail ++ [key fs path]) (places ++ [place]) where
  spelled := by rw [placed.spelled, key_eq found, List.map_append, List.map_singleton]
  distinct := by
    rw [List.nodup_append]
    refine ⟨placed.distinct, List.nodup_singleton place, ?_⟩
    rintro other earlier _ last rfl
    obtain rfl := List.mem_singleton.mp last
    have member : Files.spell other ∈ trail := placed.spelled ▸ List.mem_map_of_mem earlier
    have apart := List.any_eq_false.mp new _ member
    rw [key_eq found] at apart
    exact apart (by simp [Path.same])
  present := by
    refine List.append_subset.mpr ⟨placed.present, fun other member => ?_⟩
    rwa [List.mem_singleton.mp member]

theorem readSource_eq_ok {fs : Files} {path : Path} {content : Text} :
    fs.readSource path = .ok content ↔ fs.readText path = .ok content := mapError_eq_ok

theorem runs_repeated {fs : Files} {root path : Path} {trail : Trail}
    (known : trail.any (Path.same (key fs path)) = true) (result : Except Failure Text) :
    Runs fs root trail path result ↔
      result = .error (.cycle ((trail ++ [key fs path]).map Path.text)) := by
  constructor
  · intro run
    cases run with
    | repeated => rfl
    | unreadable new => simp [new] at known
    | file new => simp [new] at known
  · rintro rfl
    exact .repeated known

theorem runs_unreadable {fs : Files} {root path : Path} {trail : Trail} {failure : Failure}
    (new : trail.any (Path.same (key fs path)) = false)
    (unread : fs.readSource path = .error failure) (result : Except Failure Text) :
    Runs fs root trail path result ↔ result = .error failure := by
  constructor
  · intro run
    cases run with
    | repeated known => simp [new] at known
    | unreadable _ same =>
      rw [unread] at same
      cases same
      rfl
    | file _ read => simp [unread] at read
  · rintro rfl
    exact .unreadable new unread

theorem runs_file {fs : Files} {root path : Path} {trail : Trail} {content : Text}
    (new : trail.any (Path.same (key fs path)) = false)
    (read : fs.readSource path = .ok content) (result : Except Failure Text) :
    Runs fs root trail path result ↔ ∃ lines,
      RunsLines fs root (trail ++ [key fs path]) path (Text.lines content) lines ∧
        result = lines.map Text.joinLines := by
  constructor
  · intro run
    cases run with
    | repeated known => simp [new] at known
    | unreadable _ unread => simp [read] at unread
    | file _ same later =>
      rw [read] at same
      cases same
      exact ⟨_, later, rfl⟩
  · rintro ⟨lines, later, rfl⟩
    exact .file new read later

/-- Where the depth leaves room for every file of the tree, it does not bound the expansion. -/
theorem runs_iff {fs : Files} {root path : Path} {depth : Nat} {trail : Trail}
    {places : List Location} (placed : Placed fs trail places)
    (room : fs.entries.length < trail.length + depth) (result : Except Failure Text) :
    Runs fs root trail path result ↔ result = expandFile fs root depth trail path := by
  induction depth generalizing path trail places result with
  | zero =>
    have bound := placed.length_le
    omega
  | succ depth ih =>
    cases known : trail.any (Path.same (key fs path)) with
    | true => rw [runs_repeated known, expandFile_repeated known]
    | false =>
      rw [expandFile_new known]
      cases source : fs.readSource path with
      | error failure => exact runs_unreadable known source result
      | ok content =>
        obtain ⟨place, found, _, present⟩ :=
          Files.locate_of_readText (readSource_eq_ok.mp source)
        have deeper := placed.extend known found present
        have room : fs.entries.length < (trail ++ [key fs path]).length + depth := by
          rw [List.length_append, List.length_singleton]
          omega
        have lines : ∀ result, RunsLines fs root (trail ++ [key fs path]) path
            (Text.lines content) result ↔ _ :=
          runsLines_iff (fun _ => ih deeper room) (Text.lines content)
        rw [runs_file known source]
        simp only [lines, exists_eq_left]
        rfl

section Success

variable {fs : Files} {root path : Path} {expand : Path → Except Failure Text}

theorem expandLines_cons_eq_ok {line : Text} {rest parts : List Text} :
    expandLines expand path root (line :: rest) = .ok parts ↔ ∃ part more,
      parts = part :: more ∧ expandLines expand path root rest = .ok more ∧
      (isImportLine line = false ∧ part = line ∨
        isImportLine line = true ∧ ∃ target, target? line = some target ∧
          expand (resolve target path.directory root) = .ok part) := by
  cases imports : isImportLine line with
  | false =>
    rw [expandLines_kept imports]
    cases expandLines expand path root rest <;> simp [Except.map, eq_comm]
  | true =>
    cases quoted : target? line with
    | none => simp [expandLines_malformed imports quoted]
    | some target =>
      rw [expandLines_imported imports quoted]
      cases first : expand (resolve target path.directory root) with
      | error failure => simp [Except.bind, first]
      | ok text =>
        cases expandLines expand path root rest <;>
          simp [Except.bind, Except.map, first, eq_comm]

theorem expandLines_eq_ok {lines : List Text} :
    (∃ parts, expandLines expand path root lines = .ok parts) ↔
      ∀ line ∈ lines, isImportLine line = true → ∃ target text, target? line = some target ∧
        expand (resolve target path.directory root) = .ok text := by
  induction lines with
  | nil => exact ⟨fun _ => nofun, fun _ => ⟨[], rfl⟩⟩
  | cons line rest ih =>
    rw [List.forall_mem_cons, ← ih]
    constructor
    · rintro ⟨parts, expanded⟩
      obtain ⟨part, more, _, later, here⟩ := expandLines_cons_eq_ok.mp expanded
      refine ⟨fun imports => ?_, more, later⟩
      rcases here with ⟨plain, _⟩ | ⟨_, target, quoted, first⟩
      · simp [imports] at plain
      · exact ⟨target, part, quoted, first⟩
    · rintro ⟨here, more, later⟩
      cases imports : isImportLine line with
      | false =>
        exact ⟨line :: more, expandLines_cons_eq_ok.mpr
          ⟨line, more, rfl, later, .inl ⟨imports, rfl⟩⟩⟩
      | true =>
        obtain ⟨target, text, quoted, first⟩ := here imports
        exact ⟨text :: more, expandLines_cons_eq_ok.mpr
          ⟨text, more, rfl, later, .inr ⟨imports, target, quoted, first⟩⟩⟩

theorem expandFile_eq_ok {depth : Nat} {trail : Trail} {text : Text} :
    expandFile fs root depth trail path = .ok text ↔ ∃ shallower content parts,
      depth = shallower + 1 ∧ trail.any (Path.same (key fs path)) = false ∧
      fs.readText path = .ok content ∧
      expandLines (expandFile fs root shallower (trail ++ [key fs path])) path root
        (Text.lines content) = .ok parts ∧ text = Text.joinLines parts := by
  cases depth with
  | zero => simp [expandFile]
  | succ depth =>
    cases known : trail.any (Path.same (key fs path)) with
    | true => simp [expandFile_repeated known]
    | false =>
      rw [expandFile_new known]
      simp only [← readSource_eq_ok, Nat.add_right_cancel_iff, true_and]
      cases fs.readSource path with
      | error failure => simp [Except.bind]
      | ok content =>
        simp only [Except.bind, Except.ok.injEq, exists_and_left, exists_eq_left']
        cases expandLines (expandFile fs root depth (trail ++ [key fs path])) path root
          (Text.lines content) with
        | error failure => simp [Except.map]
        | ok parts => simp [Except.map, eq_comm]

end Success

/-- A file has an import line that names another. -/
def Imports (fs : Files) (root path imported : Path) : Prop :=
  ∃ content line target, fs.readText path = .ok content ∧ line ∈ Text.lines content ∧
    isImportLine line = true ∧ target? line = some target ∧
    imported = resolve target path.directory root

/-- What is imported from a file on, by paths as they are spelled. -/
def Reaches (fs : Files) (root : Path) : Path → Path → Prop :=
  Relation.ReflTransGen (Imports fs root)

/-- An import between two places, under some spelling that is met from `start` on. -/
def Leads (fs : Files) (root start : Path) (place next : Location) : Prop :=
  ∃ path imported, Reaches fs root start path ∧ Imports fs root path imported ∧
    fs.locate path = .ok place ∧ fs.locate imported = .ok next

/-- All that is imported can be read and is named by a quoted target, and no place imports
itself, directly or through others. -/
structure Importable (fs : Files) (root start : Path) : Prop where
  readable : ∀ path, Reaches fs root start path → ∃ content, fs.readText path = .ok content
  quoted : ∀ path content, Reaches fs root start path → fs.readText path = .ok content →
    ∀ line ∈ Text.lines content, isImportLine line = true → (target? line).isSome
  acyclic : ∀ place, ¬Relation.TransGen (Leads fs root start) place place

section Success

variable {fs : Files} {root path : Path}

theorem expandFile_imports {depth : Nat} {trail : Trail} {text : Text}
    (expanded : expandFile fs root depth trail path = .ok text) {imported : Path}
    (imports : Imports fs root path imported) : ∃ shallower deeper inner,
      depth = shallower + 1 ∧ expandFile fs root shallower deeper imported = .ok inner := by
  obtain ⟨shallower, content, parts, rfl, _, read, lines, _⟩ := expandFile_eq_ok.mp expanded
  obtain ⟨same, line, target, readable, member, isImport, quoted, rfl⟩ := imports
  rw [read] at readable
  cases readable
  obtain ⟨other, inner, known, expanded⟩ :=
    expandLines_eq_ok.mp ⟨parts, lines⟩ line member isImport
  rw [quoted] at known
  cases known
  exact ⟨shallower, _, inner, rfl, expanded⟩

theorem expandFile_reaches {depth : Nat} {trail : Trail} {text : Text}
    (expanded : expandFile fs root depth trail path = .ok text) {reached : Path}
    (reaches : Reaches fs root path reached) :
    ∃ shallower deeper inner, expandFile fs root shallower deeper reached = .ok inner := by
  induction reaches with
  | refl => exact ⟨depth, trail, text, expanded⟩
  | tail _ imports ih =>
    obtain ⟨_, _, _, earlier⟩ := ih
    obtain ⟨shallower, deeper, inner, _, later⟩ := expandFile_imports earlier imports
    exact ⟨shallower, deeper, inner, later⟩

end Success

theorem target?_ne_nil {line target : Text} (quoted : target? line = some target) :
    target ≠ [] := by
  simp only [target?, Option.bind_eq_bind, Option.bind_eq_some_iff] at quoted
  obtain ⟨_, _, quoted⟩ := quoted
  split at quoted
  all_goals
    obtain ⟨text, _, quoted⟩ := Option.bind_eq_some_iff.mp quoted
    split at quoted
    · contradiction
    · split at quoted
      · rename_i known
        cases quoted
        simp only [Bool.and_eq_true, Bool.not_eq_true', List.isEmpty_eq_false_iff] at known
        exact known.1.2
      · contradiction

/-- The path that a target spells. -/
def spelled (target : Text) : Path :=
  let path : Path := ⟨target.dropWhile (· = modulePrefix)⟩
  if path.extension?.isNone then path.withExtension "less" else path

theorem resolve_eq (target : Text) (directory root : Path) :
    resolve target directory root =
      if target.head? = some modulePrefix then root.join (spelled target)
      else directory.join (spelled target) := rfl

theorem spelled_ne_nil {target : Text} (filled : target ≠ [])
    (plain : target.head? ≠ some modulePrefix) : (spelled target).text ≠ [] := by
  cases target with
  | nil => contradiction
  | cons c rest =>
    have kept : (c :: rest).dropWhile (· = modulePrefix) = c :: rest := by
      have other : c ≠ modulePrefix := fun same => plain (congrArg some same)
      simp [other]
    simp only [spelled, kept]
    split
    · unfold Path.withExtension
      split
      · exact List.cons_ne_nil c rest
      · simp
    · exact List.cons_ne_nil c rest

/-- Which path a file was found by makes no difference to where its imports are. -/
theorem locate_resolve {fs : Files} (tree : fs.IsTree) {path other : Path} {place : Location}
    (found : fs.locate path = .ok place) (also : fs.locate other = .ok place)
    (file : fs.isDirectory place = false) {target : Text} (filled : target ≠ []) (root : Path) :
    fs.locate (resolve target path.directory root) =
      fs.locate (resolve target other.directory root) := by
  rw [resolve_eq, resolve_eq]
  split
  · rfl
  · rename_i plain
    cases relative : (spelled target).isAbsolute with
    | true => simp [Path.join, relative]
    | false =>
      have more := spelled_ne_nil filled plain
      rw [tree.locate_join found file relative more, tree.locate_join also file relative more]

/-- Where one path to a file leads by an import, any path to it leads. -/
theorem Leads.imports {fs : Files} (tree : fs.IsTree) {root start path : Path}
    {place next : Location} {content : Text} (leads : Leads fs root start place next)
    (found : fs.locate path = .ok place) (read : fs.readText path = .ok content) :
    ∃ imported, Imports fs root path imported ∧ fs.locate imported = .ok next := by
  obtain ⟨other, imported, _, ⟨same, line, target, there, member, isImport, quoted, rfl⟩, also,
    leads⟩ := leads
  obtain ⟨known, known_at, file, _⟩ := Files.locate_of_readText read
  rw [found] at known_at
  cases known_at
  obtain rfl : same = content := by
    rw [Files.readText_congr (also.trans found.symm), read] at there
    exact (Except.ok.inj there).symm
  exact ⟨_, ⟨same, line, target, read, member, isImport, quoted, rfl⟩,
    (locate_resolve tree found also file (target?_ne_nil quoted) root).trans leads⟩

/-- An expansion ends, so no place on a cycle has one. -/
theorem expandFile_acyclic {fs : Files} (tree : fs.IsTree) {root start path : Path} {depth : Nat}
    {trail : Trail} {text : Text} {place : Location}
    (expanded : expandFile fs root depth trail path = .ok text)
    (found : fs.locate path = .ok place) :
    ¬Relation.TransGen (Leads fs root start) place place := by
  induction depth generalizing path trail text place with
  | zero => simp [expandFile] at expanded
  | succ depth ih =>
    intro cycle
    obtain ⟨next, leads, back⟩ := Relation.TransGen.head'_iff.mp cycle
    obtain ⟨_, content, _, _, _, read, _⟩ := expandFile_eq_ok.mp expanded
    obtain ⟨imported, imports, there⟩ := leads.imports tree found read
    obtain ⟨shallower, deeper, inner, same, later⟩ := expandFile_imports expanded imports
    cases same
    exact ih later there (Relation.TransGen.tail' back leads)

theorem importable_of_flatten {fs : Files} (tree : fs.IsTree) {root start : Path} {text : Text}
    (flat : flatten fs start root = .ok text) : Importable fs root start where
  readable path reaches := by
    obtain ⟨_, _, _, expanded⟩ := expandFile_reaches flat reaches
    obtain ⟨_, content, _, _, _, read, _⟩ := expandFile_eq_ok.mp expanded
    exact ⟨content, read⟩
  quoted path content reaches read line member isImport := by
    obtain ⟨_, _, _, expanded⟩ := expandFile_reaches flat reaches
    obtain ⟨_, same, parts, _, _, known, lines, _⟩ := expandFile_eq_ok.mp expanded
    rw [read] at known
    cases known
    obtain ⟨target, _, quoted, _⟩ := expandLines_eq_ok.mp ⟨parts, lines⟩ line member isImport
    simp [quoted]
  acyclic place cycle := by
    obtain ⟨_, ⟨path, _, reaches, _, found, _⟩, _⟩ := Relation.TransGen.head'_iff.mp cycle
    obtain ⟨_, _, _, expanded⟩ := expandFile_reaches flat reaches
    exact expandFile_acyclic tree expanded found cycle

/-- Nothing keeps a file from being expanded that is not met again behind itself. -/
theorem expandFile_of_importable {fs : Files} (tree : fs.IsTree) {root start path : Path}
    (able : Importable fs root start) {depth : Nat} {trail : Trail} {places : List Location}
    (placed : Placed fs trail places) (room : fs.entries.length < trail.length + depth)
    (reaches : Reaches fs root start path)
    (behind : ∀ place ∈ places, ∀ there, fs.locate path = .ok there →
      (∀ name ∈ place, Path.IsName name) ∧ Relation.TransGen (Leads fs root start) place there) :
    ∃ text, expandFile fs root depth trail path = .ok text := by
  induction depth generalizing path trail places with
  | zero =>
    have bound := placed.length_le
    omega
  | succ depth ih =>
    obtain ⟨content, read⟩ := able.readable path reaches
    obtain ⟨place, found, _, present⟩ := Files.locate_of_readText read
    have named := tree.locate_named found
    have new : trail.any (Path.same (key fs path)) = false := by
      rw [List.any_eq_false, placed.spelled]
      intro earlier member same
      obtain ⟨other, listed, rfl⟩ := List.mem_map.mp member
      obtain ⟨names, cycle⟩ := behind other listed place found
      rw [key_eq found] at same
      obtain rfl := Files.spell_inj named names same
      exact able.acyclic _ cycle
    have deeper := placed.extend new found present
    have room : fs.entries.length < (trail ++ [key fs path]).length + depth := by
      rw [List.length_append, List.length_singleton]
      omega
    obtain ⟨parts, lines⟩ : ∃ parts, expandLines
        (expandFile fs root depth (trail ++ [key fs path])) path root (Text.lines content) =
          .ok parts := by
      rw [expandLines_eq_ok]
      intro line member isImport
      obtain ⟨target, quoted⟩ := Option.isSome_iff_exists.mp
        (able.quoted path content reaches read line member isImport)
      have imports : Imports fs root path (resolve target path.directory root) :=
        ⟨content, line, target, read, member, isImport, quoted, rfl⟩
      have further : Reaches fs root start (resolve target path.directory root) :=
        Relation.ReflTransGen.tail reaches imports
      obtain ⟨text, expanded⟩ := ih deeper room further fun other listed there at_there => by
        have leads : Leads fs root start place there :=
          ⟨path, _, reaches, imports, found, at_there⟩
        rcases List.mem_append.mp listed with earlier | last
        · obtain ⟨names, way⟩ := behind other earlier place found
          exact ⟨names, way.tail leads⟩
        · rw [List.mem_singleton.mp last]
          exact ⟨named, .single leads⟩
      exact ⟨target, text, quoted, expanded⟩
    exact ⟨_, expandFile_eq_ok.mpr ⟨depth, content, parts, rfl, new, read, lines, rfl⟩⟩

theorem placed_nil (fs : Files) : Placed fs [] [] := ⟨rfl, List.nodup_nil, List.nil_subset _⟩

theorem flatten_eq_ok_iff {fs : Files} (tree : fs.IsTree) (start root : Path) :
    (∃ text, flatten fs start root = .ok text) ↔ Importable fs root start := by
  constructor
  · rintro ⟨text, flat⟩
    exact importable_of_flatten tree flat
  · intro able
    exact expandFile_of_importable tree able (placed_nil fs) (by simp) .refl nofun

mutual

/-- The expansion of a file in place: its lines, with the expansion of its target for every import
line. -/
inductive Expansion (fs : Files) (root : Path) : Path → Text → Prop
  | file {path : Path} {content : Text} {parts : List Text} :
      fs.readText path = .ok content →
      LineExpansions fs root path (Text.lines content) parts →
      Expansion fs root path (Text.joinLines parts)

inductive LineExpansions (fs : Files) (root : Path) : Path → List Text → List Text → Prop
  | nil {path : Path} : LineExpansions fs root path [] []
  | kept {path : Path} {line : Text} {rest parts : List Text} :
      isImportLine line = false →
      LineExpansions fs root path rest parts →
      LineExpansions fs root path (line :: rest) (line :: parts)
  | imported {path : Path} {line target part : Text} {rest parts : List Text} :
      isImportLine line = true →
      target? line = some target →
      Expansion fs root (resolve target path.directory root) part →
      LineExpansions fs root path rest parts →
      LineExpansions fs root path (line :: rest) (part :: parts)

end

mutual

theorem Expansion.unique {fs : Files} {root path : Path} {text other : Text} :
    Expansion fs root path text → Expansion fs root path other → text = other
  | .file read lines, .file again others => by
    rw [read] at again
    cases again
    rw [lines.unique others]

theorem LineExpansions.unique {fs : Files} {root path : Path} {lines parts others : List Text} :
    LineExpansions fs root path lines parts → LineExpansions fs root path lines others →
      parts = others
  | .nil, .nil => rfl
  | .kept _ rest, .kept _ also => by rw [rest.unique also]
  | .kept plain _, .imported imports _ _ _ => by simp [plain] at imports
  | .imported imports _ _ _, .kept plain _ => by simp [plain] at imports
  | .imported _ quoted first rest, .imported _ same second also => by
    rw [quoted] at same
    cases same
    rw [first.unique second, rest.unique also]

end

theorem lineExpansions_of_expandLines {fs : Files} {root path : Path}
    {expand : Path → Except Failure Text}
    (expands : ∀ path text, expand path = .ok text → Expansion fs root path text)
    {lines parts : List Text} (expanded : expandLines expand path root lines = .ok parts) :
    LineExpansions fs root path lines parts := by
  induction lines generalizing parts with
  | nil =>
    cases expanded
    exact .nil
  | cons line rest ih =>
    obtain ⟨part, more, rfl, later, here⟩ := expandLines_cons_eq_ok.mp expanded
    rcases here with ⟨plain, rfl⟩ | ⟨imports, target, quoted, first⟩
    · exact .kept plain (ih later)
    · exact .imported imports quoted (expands _ _ first) (ih later)

theorem expansion_of_expandFile {fs : Files} {root path : Path} {depth : Nat} {trail : Trail}
    {text : Text} (expanded : expandFile fs root depth trail path = .ok text) :
    Expansion fs root path text := by
  induction depth generalizing path trail text with
  | zero => simp [expandFile] at expanded
  | succ depth ih =>
    obtain ⟨_, content, parts, same, _, read, lines, rfl⟩ := expandFile_eq_ok.mp expanded
    cases same
    exact .file read (lineExpansions_of_expandLines (fun _ _ inner => ih inner) lines)

theorem lines_joinLines {parts : List Text} (filled : parts ≠ []) :
    Text.lines (Text.joinLines parts) = parts.flatMap Text.lines := by
  induction parts with
  | nil => contradiction
  | cons part parts ih =>
    cases parts with
    | nil => simp [Text.joinLines]
    | cons next parts =>
      have more := List.cons_ne_nil next parts
      have whole : Text.joinLines (part :: next :: parts) =
          part ++ '\n' :: Text.joinLines (next :: parts) := joined_cons '\n' part more
      rw [List.flatMap_cons, ← ih more, whole]
      exact splitOn_append '\n' part _

theorem LineExpansions.eq_nil {fs : Files} {root path : Path} {lines : List Text}
    (expanded : LineExpansions fs root path lines []) : lines = [] := by
  cases expanded
  rfl

mutual

theorem Expansion.plain {fs : Files} {root path : Path} {text : Text} :
    Expansion fs root path text → ∀ line ∈ Text.lines text, isImportLine line = false
  | @Expansion.file _ _ _ content parts _ lines => by
    have single : ∀ line ∈ Text.lines content, '\n' ∉ line := fun _ => notMem_of_mem_splitOn
    have filled : parts ≠ [] := by
      rintro rfl
      exact List.splitOnP_ne_nil _ _ lines.eq_nil
    intro line member
    rw [lines_joinLines filled] at member
    obtain ⟨part, listed, inner⟩ := List.mem_flatMap.mp member
    exact lines.plain single part listed line inner

theorem LineExpansions.plain {fs : Files} {root path : Path} {lines parts : List Text} :
    LineExpansions fs root path lines parts → (∀ line ∈ lines, '\n' ∉ line) →
      ∀ part ∈ parts, ∀ line ∈ Text.lines part, isImportLine line = false
  | .nil, _ => nofun
  | .kept plain rest, single => by
    obtain ⟨head, tail⟩ := List.forall_mem_cons.mp single
    refine List.forall_mem_cons.mpr ⟨fun line member => ?_, rest.plain tail⟩
    rw [Text.lines_line head, List.mem_singleton] at member
    rwa [member]
  | .imported _ _ first rest, single =>
    List.forall_mem_cons.mpr ⟨first.plain, rest.plain (List.forall_mem_cons.mp single).2⟩

end

/-- The expansion always ends, and in a text just if all imports can be followed and none leads
back to where it is met. The text is then the one expansion in place, and imports nothing. -/
theorem flatten_expands {fs : Files} (tree : fs.IsTree) (start root : Path) :
    (∀ result, Runs fs root [] start result ↔ result = flatten fs start root) ∧
      ((∃ text, flatten fs start root = .ok text) ↔ Importable fs root start) ∧
      ∀ text, flatten fs start root = .ok text →
        (∀ other, Expansion fs root start other ↔ other = text) ∧
          ∀ line ∈ Text.lines text, isImportLine line = false := by
  refine ⟨runs_iff (placed_nil fs) (by simp), flatten_eq_ok_iff tree start root, ?_⟩
  intro text flat
  have expansion := expansion_of_expandFile flat
  refine ⟨fun other => ⟨fun also => also.unique expansion, ?_⟩, expansion.plain⟩
  rintro rfl
  exact expansion

/-- A sheet that imports another in two ways. -/
def diamond : Files where
  entries := [
    (["app"], .directory),
    (["app", "entry.less"],
      .file (Utf8.encode "@import 'left';\n@import './right.less';\n@a: 1;") false),
    (["app", "left.less"], .file (Utf8.encode "@import \"shared\";") false),
    (["app", "right.less"], .file (Utf8.encode "@b: 2;\n@import (less) '../app/shared';") false),
    (["app", "shared.less"], .file (Utf8.encode "@s: 3;") false)]
  current := ["app"]

theorem flatten_expands_diamond : diamond.IsTree ∧
    Importable diamond ⟨"node_modules"⟩ ⟨"entry.less"⟩ ∧
    Expansion diamond ⟨"node_modules"⟩ ⟨"entry.less"⟩ "@s: 3;\n@b: 2;\n@s: 3;\n@a: 1;" := by
  have tree : diamond.IsTree := ⟨by decide, by decide⟩
  have flat : flatten diamond ⟨"entry.less"⟩ ⟨"node_modules"⟩ =
      .ok "@s: 3;\n@b: 2;\n@s: 3;\n@a: 1;" := by decide +kernel
  obtain ⟨_, able, expands⟩ := flatten_expands tree ⟨"entry.less"⟩ ⟨"node_modules"⟩
  exact ⟨tree, able.mp ⟨_, flat⟩, ((expands _ flat).1 _).mpr rfl⟩

end Import
end ColorTheme
