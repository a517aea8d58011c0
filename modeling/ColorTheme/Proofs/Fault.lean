import ColorTheme.Proofs.Import
import ColorTheme.Proofs.Beyond
import ColorTheme.Proofs.Target
import Mathlib.Data.List.Chain
import Mathlib.Data.List.Lex

/-!
Why a file cannot be expanded. A fault stands at a position, the numbers of the lines that lead to
it; of all faults the first one is reported. The files being expanded there are the imports that
lead to it, each of them once, so the report of a cycle lists them. -/
namespace ColorTheme

theorem map_eq_error {ε α β : Type} {f : α → β} {x : Except ε α} {e : ε} :
    x.map f = .error e ↔ x = .error e := by cases x <;> simp [Except.map]

namespace Import

/-- What keeps a file from being expanded behind a trail, and its position: the number of a line
for every import that leads to it. -/
inductive Fault (fs : Files) (root : Path) : Trail → Path → (position : List Nat) → Failure → Prop
  | repeated {trail : Trail} {path : Path} :
      trail.any (Path.same (key fs path)) = true →
      Fault fs root trail path [] (.cycle ((trail ++ [key fs path]).map Path.text))
  | unreadable {trail : Trail} {path : Path} {cause : FileError} :
      trail.any (Path.same (key fs path)) = false →
      fs.readText path = .error cause →
      Fault fs root trail path [] (.read path cause)
  | malformed {trail : Trail} {path : Path} {content line : Text} {number : Nat} :
      trail.any (Path.same (key fs path)) = false →
      fs.readText path = .ok content →
      (Text.lines content)[number]? = some line →
      isImportLine line = true →
      target? line = none →
      Fault fs root trail path [number] (.malformedImport path (Text.trim line))
  | imported {trail : Trail} {path : Path} {content line target : Text} {number : Nat}
      {position : List Nat} {failure : Failure} :
      trail.any (Path.same (key fs path)) = false →
      fs.readText path = .ok content →
      (Text.lines content)[number]? = some line →
      isImportLine line = true →
      target? line = some target →
      Fault fs root (trail ++ [key fs path]) (resolve target path.directory root) position failure →
      Fault fs root trail path (number :: position) failure

/-- The fault before which there is none. Positions are compared from the outermost file on, which
is the order in which the lines are met. -/
def First (faults : List Nat → Failure → Prop) (failure : Failure) : Prop :=
  ∃ position, faults position failure ∧ ∀ earlier other, faults earlier other → ¬earlier < position

/-- A fault of an import line: it has no target, or the file that it names has the fault. -/
def LineFault (fs : Files) (root : Path) (trail : Trail) (path : Path) (line : Text)
    (position : List Nat) (failure : Failure) : Prop :=
  target? line = none ∧ position = [] ∧ failure = .malformedImport path (Text.trim line) ∨
    ∃ target, target? line = some target ∧
      Fault fs root trail (resolve target path.directory root) position failure

section Order

variable {fs : Files} {root path : Path} {trail : Trail} {position : List Nat}
  {failure other : Failure}

theorem lineFault_malformed {line : Text} (unquoted : target? line = none) :
    LineFault fs root trail path line position failure ↔
      position = [] ∧ failure = .malformedImport path (Text.trim line) := by
  simp [LineFault, unquoted]

theorem lineFault_imported {line target : Text} (quoted : target? line = some target) :
    LineFault fs root trail path line position failure ↔
      Fault fs root trail (resolve target path.directory root) position failure := by
  simp [LineFault, quoted]

theorem fault_file {content : Text} (new : trail.any (Path.same (key fs path)) = false)
    (read : fs.readText path = .ok content) :
    Fault fs root trail path position failure ↔ ∃ number rest line, position = number :: rest ∧
      (Text.lines content)[number]? = some line ∧ isImportLine line = true ∧
      LineFault fs root (trail ++ [key fs path]) path line rest failure := by
  constructor
  · intro fault
    cases fault with
    | repeated known => simp [new] at known
    | unreadable _ unread => simp [read] at unread
    | malformed _ same there imports unquoted =>
      rw [read] at same
      cases same
      exact ⟨_, [], _, rfl, there, imports, .inl ⟨unquoted, rfl, rfl⟩⟩
    | imported _ same there imports quoted inner =>
      rw [read] at same
      cases same
      exact ⟨_, _, _, rfl, there, imports, .inr ⟨_, quoted, inner⟩⟩
  · rintro ⟨number, rest, line, rfl, there, imports, ⟨unquoted, rfl, rfl⟩ | ⟨target, quoted, inner⟩⟩
    · exact .malformed new read there imports unquoted
    · exact .imported new read there imports quoted inner

theorem Fault.unique (fault : Fault fs root trail path position failure)
    (also : Fault fs root trail path position other) : failure = other := by
  induction fault with
  | repeated known =>
    cases also with
    | repeated => rfl
    | unreadable new => simp [new] at known
  | unreadable new unread =>
    cases also with
    | repeated known => simp [new] at known
    | unreadable _ same =>
      rw [unread] at same
      cases same
      rfl
  | malformed new read there _ unquoted =>
    obtain ⟨_, _, _, same, again, _, here⟩ := (fault_file new read).mp also
    cases same
    rw [there] at again
    cases again
    exact ((lineFault_malformed unquoted).mp here).2.symm
  | imported new read there _ quoted _ ih =>
    obtain ⟨_, _, _, same, again, _, here⟩ := (fault_file new read).mp also
    cases same
    rw [there] at again
    cases again
    exact ih ((lineFault_imported quoted).mp here)

theorem First.unique (first : First (Fault fs root trail path) failure)
    (also : First (Fault fs root trail path) other) : failure = other := by
  obtain ⟨position, fault, least⟩ := first
  obtain ⟨place, same, lowest⟩ := also
  rcases lt_trichotomy position place with before | rfl | after
  · exact absurd before (lowest _ _ fault)
  · exact fault.unique same
  · exact absurd after (least _ _ same)

theorem first_nil {faults : List Nat → Failure → Prop} (fault : faults [] failure) :
    First faults failure := ⟨[], fault, fun _ _ _ => List.not_lt_nil _⟩

/-- Behind lines without a fault, the first fault of a line is that of the file. -/
theorem first_line {content line : Text} {front back : List Text}
    (new : trail.any (Path.same (key fs path)) = false) (read : fs.readText path = .ok content)
    (whole : Text.lines content = front ++ line :: back) (imports : isImportLine line = true)
    (sound : ∀ line ∈ front, isImportLine line = true → ∀ position failure,
      ¬LineFault fs root (trail ++ [key fs path]) path line position failure)
    (first : First (LineFault fs root (trail ++ [key fs path]) path line) failure) :
    First (Fault fs root trail path) failure := by
  obtain ⟨position, fault, least⟩ := first
  have there : (Text.lines content)[front.length]? = some line := by simp [whole]
  refine ⟨front.length :: position,
    (fault_file new read).mpr ⟨_, _, line, rfl, there, imports, fault⟩, ?_⟩
  intro earlier other also before
  obtain ⟨number, rest, last, rfl, met, importing, inner⟩ := (fault_file new read).mp also
  rcases List.cons_lt_cons_iff.mp before with less | ⟨rfl, less⟩
  · -- A line with a smaller number stands in front.
    rw [whole, List.getElem?_append_left less] at met
    exact sound last (List.mem_of_getElem? met) importing _ _ inner
  · rw [there] at met
    cases met
    exact least _ _ inner less

theorem Fault.not_expanded (fault : Fault fs root trail path position failure) (depth : Nat)
    (text : Text) : expandFile fs root depth trail path ≠ .ok text := by
  induction fault generalizing depth text with
  | repeated known => simp [expandFile_repeated known]
  | unreadable _ unread =>
    intro expanded
    obtain ⟨_, _, _, _, _, read, _⟩ := expandFile_eq_ok.mp expanded
    simp [unread] at read
  | malformed _ read there imports unquoted =>
    intro expanded
    obtain ⟨_, _, parts, _, _, same, lines, _⟩ := expandFile_eq_ok.mp expanded
    rw [read] at same
    cases same
    obtain ⟨_, _, quoted, _⟩ :=
      expandLines_eq_ok.mp ⟨parts, lines⟩ _ (List.mem_of_getElem? there) imports
    simp [unquoted] at quoted
  | imported _ read there imports quoted _ ih =>
    intro expanded
    obtain ⟨_, _, parts, _, _, same, lines, _⟩ := expandFile_eq_ok.mp expanded
    rw [read] at same
    cases same
    obtain ⟨_, _, known, inner⟩ :=
      expandLines_eq_ok.mp ⟨parts, lines⟩ _ (List.mem_of_getElem? there) imports
    rw [quoted] at known
    cases known
    exact ih _ _ inner

theorem expandLines_cons {expand : Path → Except Failure Text} {line part : Text}
    (here : isImportLine line = false ∧ part = line ∨ isImportLine line = true ∧
      ∃ target, target? line = some target ∧
        expand (resolve target path.directory root) = .ok part) (rest : List Text) :
    expandLines expand path root (line :: rest) =
      (expandLines expand path root rest).map (part :: ·) := by
  rcases here with ⟨plain, rfl⟩ | ⟨imports, target, quoted, first⟩
  · exact expandLines_kept plain
  · rw [expandLines_imported imports quoted, first]
    rfl

theorem expandLines_eq_error {expand : Path → Except Failure Text} {lines : List Text}
    (failed : expandLines expand path root lines = .error failure) : ∃ front line back,
      lines = front ++ line :: back ∧ (∃ parts, expandLines expand path root front = .ok parts) ∧
      isImportLine line = true ∧
      (target? line = none ∧ failure = .malformedImport path (Text.trim line) ∨
        ∃ target, target? line = some target ∧
          expand (resolve target path.directory root) = .error failure) := by
  induction lines with
  | nil => contradiction
  | cons line rest ih =>
    by_cases kept : ∃ part, isImportLine line = false ∧ part = line ∨ isImportLine line = true ∧
        ∃ target, target? line = some target ∧
          expand (resolve target path.directory root) = .ok part
    · obtain ⟨part, here⟩ := kept
      rw [expandLines_cons here, map_eq_error] at failed
      obtain ⟨front, last, back, rfl, ⟨more, expanded⟩, known⟩ := ih failed
      refine ⟨line :: front, last, back, rfl, ⟨part :: more, ?_⟩, known⟩
      rw [expandLines_cons here, expanded]
      rfl
    · have imports : isImportLine line = true := by
        by_contra plain
        exact kept ⟨line, .inl ⟨by simpa using plain, rfl⟩⟩
      refine ⟨[], line, rest, rfl, ⟨[], rfl⟩, imports, ?_⟩
      cases quoted : target? line with
      | none =>
        rw [expandLines_malformed imports quoted] at failed
        cases failed
        exact .inl ⟨rfl, rfl⟩
      | some target =>
        rw [expandLines_imported imports quoted] at failed
        refine .inr ⟨target, rfl, ?_⟩
        cases first : expand (resolve target path.directory root) with
        | error e =>
          rw [first] at failed
          cases failed
          rfl
        | ok part => exact absurd ⟨part, .inr ⟨imports, target, quoted, first⟩⟩ kept

/-- Where the depth leaves room for every file of the tree, the failure is the first fault. -/
theorem first_of_expandFile {depth : Nat} {places : List Location}
    (placed : Placed fs trail places) (room : fs.entries.length < trail.length + depth)
    (failed : expandFile fs root depth trail path = .error failure) :
    First (Fault fs root trail path) failure := by
  induction depth generalizing trail path places failure with
  | zero =>
    have bound := placed.length_le
    omega
  | succ depth ih =>
    cases known : trail.any (Path.same (key fs path)) with
    | true =>
      rw [expandFile_repeated known] at failed
      cases failed
      exact first_nil (.repeated known)
    | false =>
      rw [expandFile_new known] at failed
      cases read : fs.readText path with
      | error cause =>
        simp only [Files.readSource, read] at failed
        cases failed
        exact first_nil (.unreadable known read)
      | ok content =>
        rw [readSource_eq_ok.mpr read] at failed
        -- The file has a place that the trail lacks, so there is room for one that it imports.
        obtain ⟨place, found, _, present⟩ := Files.locate_of_readText read
        have deeper := placed.extend known found present
        have room : fs.entries.length < (trail ++ [key fs path]).length + depth := by
          rw [List.length_append, List.length_singleton]
          omega
        obtain ⟨front, line, back, whole, expanded, imports, here⟩ :=
          expandLines_eq_error (map_eq_error.mp failed)
        refine first_line known read whole imports (fun earlier member importing _ _ fault => ?_) ?_
        · obtain ⟨_, _, quoted, inner⟩ := expandLines_eq_ok.mp expanded earlier member importing
          exact ((lineFault_imported quoted).mp fault).not_expanded _ _ inner
        · rcases here with ⟨unquoted, rfl⟩ | ⟨target, quoted, failed⟩
          · exact first_nil ((lineFault_malformed unquoted).mpr ⟨rfl, rfl⟩)
          · have inner := ih deeper room failed
            simpa only [First, lineFault_imported quoted] using inner

theorem flatten_eq_error_iff (start : Path) :
    flatten fs start root = .error failure ↔ First (Fault fs root [] start) failure := by
  have first : ∀ {failure}, flatten fs start root = .error failure →
      First (Fault fs root [] start) failure :=
    first_of_expandFile (placed_nil fs) (by simp)
  refine ⟨first, fun fault => ?_⟩
  cases flat : flatten fs start root with
  | ok text =>
    obtain ⟨_, known, _⟩ := fault
    exact absurd flat (known.not_expanded _ _)
  | error e => rw [(first flat).unique fault]

end Order

def names (fs : Files) (files : List Path) : List Text := files.map fun file => (key fs file).text

/-- The imports that lead from the start file to the last one. -/
structure Descent (fs : Files) (root start : Path) (files : List Path) (last : Path) : Prop where
  starts : (files ++ [last]).head? = some start
  imports : (files ++ [last]).IsChain (Imports fs root)
  canonical : ∀ file ∈ files, ∃ place, fs.locate file = .ok place ∧ key fs file = Files.spell place
  distinct : (names fs files).Nodup

/-- The last file is none of those that lead to it. -/
def Fresh (fs : Files) (files : List Path) (last : Path) : Prop :=
  ∀ earlier ∈ files, (key fs last).same (key fs earlier) = false

/-- What a failure says about the tree. -/
inductive Explained (fs : Files) (root start : Path) : Failure → Prop
  | cycle {files : List Path} {last : Path} :
      Descent fs root start files last →
      (∃ earlier ∈ files, (key fs last).same (key fs earlier) = true) →
      (∃ place, fs.locate last = .ok place) ∧ (key fs last).text ∈ names fs files ∨
        fs.Beyond last ∧ key fs last = last →
      Explained fs root start (.cycle (names fs (files ++ [last])))
  | read {files : List Path} {last : Path} {cause : FileError} :
      Descent fs root start files last →
      Fresh fs files last →
      fs.readText last = .error cause →
      Explained fs root start (.read last cause)
  | malformed {files : List Path} {last : Path} {content line : Text} :
      Descent fs root start files last →
      Fresh fs files last →
      fs.readText last = .ok content →
      line ∈ Text.lines content →
      isImportLine line = true →
      isImportLine (Text.trim line) = true →
      (¬∃ target, IsTarget (Text.trim line) target) →
      Explained fs root start (.malformedImport last (Text.trim line))

section Descent

variable {fs : Files} {root start path : Path} {files : List Path}

theorem any_same {files : List Path} : (files.map (key fs)).any (Path.same (key fs path)) = true ↔
    ∃ earlier ∈ files, (key fs path).same (key fs earlier) = true := by
  simp [List.any_map]

theorem fresh_iff : Fresh fs files path ↔
    (files.map (key fs)).any (Path.same (key fs path)) = false := by
  rw [← Bool.not_eq_true, any_same]
  simp [Fresh]

theorem exists_next {next : Path → Path → Prop} (chain : (files ++ [path]).IsChain next) :
    ∀ file ∈ files, ∃ other, next file other := by
  induction files with
  | nil => exact nofun
  | cons first rest ih =>
    obtain ⟨head, tail, more⟩ := List.exists_cons_of_ne_nil (List.concat_ne_nil path rest)
    rw [List.cons_append, more, List.isChain_cons_cons, ← more] at chain
    exact List.forall_mem_cons.mpr ⟨⟨head, chain.1⟩, ih chain.2⟩

theorem Descent.extend {content : Text} {imported : Path}
    (descent : Descent fs root start files path) (fresh : Fresh fs files path)
    (read : fs.readText path = .ok content) (imports : Imports fs root path imported) :
    Descent fs root start (files ++ [path]) imported where
  starts := by
    rw [List.head?_append_of_ne_nil _ (List.concat_ne_nil path files)]
    exact descent.starts
  imports := by
    refine List.isChain_append.mpr ⟨descent.imports, List.isChain_singleton imported, ?_⟩
    simpa using imports
  canonical := by
    obtain ⟨place, found, _⟩ := Files.locate_of_readText read
    exact List.forall_mem_append.mpr
      ⟨descent.canonical, List.forall_mem_singleton.mpr ⟨place, found, key_eq found⟩⟩
  distinct := by
    rw [names, List.map_append, List.nodup_append]
    refine ⟨descent.distinct, List.nodup_singleton _, ?_⟩
    rintro name member other last rfl
    obtain ⟨earlier, listed, same⟩ := List.mem_map.mp member
    have twice : key fs earlier = key fs path :=
      congrArg Path.mk (same.trans (List.mem_singleton.mp last))
    have apart := fresh earlier listed
    rw [twice] at apart
    simp [Path.same] at apart

/-- Where a file is met again, it is listed by the same name, if the path to it can be followed. -/
theorem Descent.ends (tree : fs.IsTree) (descent : Descent fs root start files path)
    {earlier : Path} (member : earlier ∈ files)
    (same : (key fs path).same (key fs earlier) = true) :
    (∃ place, fs.locate path = .ok place) ∧ (key fs path).text ∈ names fs files ∨
      fs.Beyond path ∧ key fs path = path := by
  obtain ⟨_, content, _, _, read, _⟩ := exists_next descent.imports earlier member
  obtain ⟨_, there, _⟩ := Files.readText_eq_ok.mp read
  obtain ⟨place, _, found, file⟩ := Files.read_eq_ok.mp there
  have named := tree.locate_named found
  rw [key_eq found] at same
  cases known : fs.locate path with
  | ok other =>
    rw [key_eq known] at same
    obtain rfl := Files.spell_inj (tree.locate_named known) named same
    refine .inl ⟨⟨other, rfl⟩, List.mem_map.mpr ⟨earlier, member, ?_⟩⟩
    rw [key_eq found, key_eq known]
  | error cause =>
    -- Nothing is found, so the path is compared as it is spelled.
    have kept : key fs path = path := by simp [key, known]
    rw [kept] at same
    refine .inr ⟨?_, kept⟩
    have missed : fs.locate path ≠ .ok place := by simp [known]
    exact (tree.locate_same named (by simp [file]) (by simp [Files.isDirectory, file])
      same).resolve_left missed

theorem Fault.explained (tree : fs.IsTree) {trail : Trail} {position : List Nat} {failure : Failure}
    (fault : Fault fs root trail path position failure) (along : trail = files.map (key fs))
    (descent : Descent fs root start files path) : Explained fs root start failure := by
  induction fault generalizing files with
  | @repeated trail path known =>
    subst along
    obtain ⟨earlier, member, same⟩ := any_same.mp known
    have listed : (files.map (key fs) ++ [key fs path]).map Path.text =
        names fs (files ++ [path]) := by simp [names]
    rw [listed]
    exact .cycle descent ⟨earlier, member, same⟩ (descent.ends tree member same)
  | unreadable new unread =>
    subst along
    exact .read descent (fresh_iff.mpr new) unread
  | malformed new read there imports unquoted =>
    subst along
    obtain ⟨begins, same⟩ := target?_trim imports
    refine .malformed descent (fresh_iff.mpr new) read (List.mem_of_getElem? there) imports begins
      ?_
    rintro ⟨target, quoted⟩
    rw [← target?_eq_some, same, unquoted] at quoted
    contradiction
  | imported new read there imports quoted _ ih =>
    subst along
    refine ih (by simp) (descent.extend (fresh_iff.mpr new) read ?_)
    exact ⟨_, _, _, read, List.mem_of_getElem? there, imports, quoted, rfl⟩

end Descent

/-- The failure is the first fault in the order of the lines, and a report of it is true: the
imports lead from the start file to where it is, and no file is met twice before. -/
theorem flatten_fails {fs : Files} (tree : fs.IsTree) (start root : Path) (failure : Failure) :
    (flatten fs start root = .error failure ↔ First (Fault fs root [] start) failure) ∧
      (flatten fs start root = .error failure → Explained fs root start failure) := by
  refine ⟨flatten_eq_error_iff start, fun failed => ?_⟩
  obtain ⟨_, fault, _⟩ := (flatten_eq_error_iff start).mp failed
  have here : Descent fs root start [] start :=
    ⟨rfl, List.isChain_singleton start, nofun, List.nodup_nil⟩
  exact fault.explained tree rfl here

/-- A sheet that is imported again by the second of two sheets, when the first is done. -/
def ring : Files where
  entries := [
    (["app"], .directory),
    (["app", "entry.less"],
      .file (Utf8.encode "@import 'left';\n@a: 1;\n@import './right.less';") false),
    (["app", "left.less"], .file (Utf8.encode "@import \"shared\";") false),
    (["app", "right.less"], .file (Utf8.encode "@import 'shared';\n@import '../app/entry';") false),
    (["app", "shared.less"], .file (Utf8.encode "@s: 3;") false)]
  current := ["app"]

theorem flatten_fails_ring :
    First (Fault ring ⟨"node_modules"⟩ [] ⟨"entry.less"⟩)
        (.cycle ["/app/entry.less", "/app/right.less", "/app/entry.less"]) ∧
      Explained ring ⟨"node_modules"⟩ ⟨"entry.less"⟩
        (.cycle ["/app/entry.less", "/app/right.less", "/app/entry.less"]) := by
  have tree : ring.IsTree := ⟨by decide, by decide⟩
  have failed : flatten ring ⟨"entry.less"⟩ ⟨"node_modules"⟩ =
      .error (.cycle ["/app/entry.less", "/app/right.less", "/app/entry.less"]) := by
    decide +kernel
  obtain ⟨first, explained⟩ := flatten_fails tree ⟨"entry.less"⟩ ⟨"node_modules"⟩ _
  exact ⟨first.mp failed, explained failed⟩

/-- A sheet that imports itself with a slash behind its name. -/
def slashed : Files where
  entries := [
    (["app"], .directory),
    (["app", "entry.less"], .file (Utf8.encode "@import '/app/entry.less/';") false)]
  current := ["app"]

/-- That path leads nowhere, so the report ends with a name that is not met before. -/
theorem flatten_fails_slashed : slashed.IsTree ∧ ∃ names,
    flatten slashed ⟨"entry.less"⟩ ⟨"node_modules"⟩ = .error (.cycle names) ∧
      ¬∃ files last, names = files ++ [last] ∧ last ∈ files := by
  refine ⟨⟨by decide, by decide⟩, ["/app/entry.less", "/app/entry.less/"], by decide +kernel, ?_⟩
  rintro ⟨files, last, whole, member⟩
  have parts : ["/app/entry.less".toList] ++ ["/app/entry.less/".toList] = files ++ [last] := whole
  obtain ⟨rfl, same⟩ := List.append_inj' parts rfl
  obtain rfl := List.singleton_injective same
  exact absurd member (by decide)

end Import
end ColorTheme
