import ColorTheme.Proofs.Generation
import ColorTheme.Proofs.Overlay
import ColorTheme.Proofs.Path
import Mathlib.Data.Char
import Mathlib.Data.List.Lex
import Mathlib.Data.List.Sort

/-!
What discovery finds. The themes are the sheets of the directory by their names, each with its three
layers of variables, whatever order the directory and the tables of variables are listed in. -/
namespace ColorTheme

namespace Text

theorem insertBy_eq {α : Type} (smaller : α → α → Bool) (a : α) (items : List α) :
    insertBy smaller a items = items.orderedInsert (fun a b => ¬ smaller b a) a := by
  induction items with
  | nil => rfl
  | cons first rest ih =>
    rw [insertBy, List.orderedInsert_cons, ih, ite_not]

theorem sortBy_eq {α : Type} (smaller : α → α → Bool) (items : List α) :
    sortBy smaller items = items.insertionSort fun a b => ¬ smaller b a := by
  rw [sortBy, List.insertionSort, funext₂ (insertBy_eq smaller)]

theorem sortBy_ascending {names : List Text} (distinct : names.Nodup) :
    (sortBy before names).Pairwise (· < ·) := by
  have total : Std.Total fun a b : Text => ¬ before b a :=
    ⟨fun a b => by simpa [before] using le_total a b⟩
  have trans : IsTrans Text fun a b => ¬ before b a :=
    ⟨fun a b c => by simpa [before] using le_trans⟩
  have sorted := List.pairwise_insertionSort (fun a b => ¬ before b a) names
  have apart := (List.perm_insertionSort (fun a b => ¬ before b a) names).nodup_iff.mpr distinct
  rw [sortBy_eq]
  refine (sorted.and apart).imp fun {a b} ordered => lt_of_le_of_ne ?_ ordered.2
  simpa [before] using ordered.1

end Text

namespace Path

theorem lastName?_slash {file : Text} (named : IsName file) (front : Text) :
    ∃ stop, (⟨front ++ '/' :: file⟩ : Path).lastName? = some (file, stop) := by
  obtain ⟨first, rest, start⟩ := List.exists_cons_of_ne_nil (List.splitOnP_ne_nil (· == '/') front)
  have parts : (front ++ '/' :: file).splitOn '/' = first :: (rest ++ [file]) := by
    have start : front.splitOn '/' = first :: rest := start
    rw [splitOn_append, named.parts, start, List.cons_append]
  obtain ⟨c, ends⟩ := componentEnds_cons (p := ⟨front ++ '/' :: file⟩) parts
    (List.concat_ne_nil file rest)
  rw [innerEnds_concat, named.inner, Option.map_some, Option.toList_some] at ends
  rw [lastName?, ends, ← List.cons_append, List.getLast?_concat]
  exact ⟨_, rfl⟩

theorem lastName?_join {file : Text} (named : IsName file) (directory : Path) :
    ∃ stop, (directory.join ⟨file⟩).lastName? = some (file, stop) := by
  have alone : IsName (Path.mk file).text := named
  unfold join
  split
  · rw [lastName?, alone.componentEnds]
    exact ⟨file.length, rfl⟩
  · split
    · rename_i slashed
      obtain ⟨front, whole⟩ := List.getLast?_eq_some_iff.mp slashed
      rw [whole, List.append_assoc, List.singleton_append]
      exact lastName?_slash named front
    · exact lastName?_slash named directory.text

theorem splitExtension_eq {name stem extension : Text} :
    splitExtension name = (stem, some extension) ↔
      stem ≠ [] ∧ stem ++ '.' :: extension = name ∧ '.' ∉ extension := by
  unfold splitExtension
  constructor
  · intro split
    cases cut : Text.cutLast? '.' name with
    | none => simp [cut] at split
    | some parts =>
      obtain ⟨front, tail⟩ := parts
      by_cases empty : front = []
      · simp [cut, empty] at split
      · obtain ⟨rfl, rfl⟩ : front = stem ∧ tail = extension := by simpa [cut, empty] using split
        exact ⟨empty, (Text.cutLast?_eq_append cut).symm, Text.cutLast?_clean cut⟩
  · rintro ⟨filled, rfl, plain⟩
    simp [Text.cutLast?_append plain, filled]

end Path

/-- A file tree whose entries are called like files. -/
def Files.Named (fs : Files) : Prop := ∀ entry ∈ fs.entries, ∀ name ∈ entry.1, Path.IsName name

theorem Files.Named.list {fs : Files} (named : fs.Named) {directory : Path} {listing : List Text}
    (listed : fs.list directory = .ok listing) : ∀ file ∈ listing, Path.IsName file := by
  simp only [Files.list, bind, Except.bind, pure, Except.pure] at listed
  split at listed
  · contradiction
  · split at listed
    · contradiction
    · cases listed
      intro file member
      rw [Text.sortBy_eq, List.mem_insertionSort] at member
      obtain ⟨⟨place, entry⟩, known, found⟩ := List.mem_filterMap.mp member
      split at found
      · exact named _ known file (List.mem_of_getLast? found)
      · contradiction

/-- Tables of variables with the same entries, each name once, in any order. -/
def ThemeTable.Shuffles (first second : ThemeTable) : Prop :=
  ∀ name, ((first.lookup name).getD []).Perm ((second.lookup name).getD []) ∧
    (((second.lookup name).getD []).map Prod.fst).Nodup

namespace Themes

open ColorTheme.Path

theorem nameOf?_join {file name : Text} (named : IsName file) (directory : Path) :
    nameOf? (directory.join ⟨file⟩) = some name ↔
      name ≠ [] ∧ name ≠ indexName ∧ name ++ '.' :: sheetExtension = file := by
  obtain ⟨stop, last⟩ := lastName?_join named directory
  have plain : '.' ∉ sheetExtension := by decide
  have parts : nameOf? (directory.join ⟨file⟩) = some name ↔
      splitExtension file = (name, some sheetExtension) ∧ name ≠ indexName := by
    simp only [nameOf?, extension?, stem?, last, Option.bind_some, Option.map_some]
    rcases splitExtension file with ⟨stem, extension⟩
    by_cases sheet : extension = some sheetExtension
    · simp only [sheet, if_true, Option.filter_eq_some_iff, Prod.mk.injEq, and_true]
      constructor
      · rintro ⟨same, other⟩
        exact ⟨Option.some.inj same, by simpa using other⟩
      · rintro ⟨rfl, other⟩
        exact ⟨rfl, by simpa using other⟩
    · simp [sheet]
  rw [parts, splitExtension_eq]
  tauto

def Ascending (entries : List (Text × Bindings)) : Prop :=
  entries.Pairwise fun first second => first.1 < second.1

theorem Ascending.distinct {entries : List (Text × Bindings)} (ascending : Ascending entries) :
    (entries.map Prod.fst).Nodup :=
  List.pairwise_map.mpr (ascending.imp fun less => ne_of_lt less)

section AddSorted

variable {name : Text} {values : Bindings} {entries : List (Text × Bindings)}

theorem mem_addSorted {entry : Text × Bindings} : entry ∈ addSorted name values entries ↔
    entry = (name, values) ∨ entry ∈ entries ∧ entry.1 ≠ name := by
  simp only [addSorted, List.mem_append, List.mem_cons, List.mem_filter, Text.before,
    decide_eq_true_eq, ne_iff_lt_or_gt]
  tauto

theorem Ascending.addSorted (ascending : Ascending entries) :
    Ascending (addSorted name values entries) := by
  have smaller : ∀ entry ∈ entries.filter (Text.before ·.1 name), entry.1 < name :=
    fun entry member => of_decide_eq_true (List.mem_filter.mp member).2
  have larger : ∀ entry ∈ entries.filter (Text.before name ·.1), name < entry.1 :=
    fun entry member => of_decide_eq_true (List.mem_filter.mp member).2
  refine List.pairwise_append.mpr ⟨ascending.filter _,
    List.pairwise_cons.mpr ⟨larger, ascending.filter _⟩, fun first early second late => ?_⟩
  rcases List.mem_cons.mp late with rfl | later
  · exact smaller first early
  · exact lt_trans (smaller first early) (larger second later)

end AddSorted

section Discover

variable {fs : Files} {directory : Path} {base : Bindings} {custom : ThemeTable}

/-- A directory that lists these names has a theme of this name. -/
def Listed (listing : List Text) (name : Text) : Prop :=
  name ≠ [] ∧ name ≠ indexName ∧ name ++ '.' :: sheetExtension ∈ listing

def sheetOf (directory : Path) (name : Text) : Path :=
  directory.join ⟨name ++ '.' :: sheetExtension⟩

theorem discoverIn_skip {file : Text} (unnamed : nameOf? (directory.join ⟨file⟩) = none)
    (rest : List Text) : discoverIn fs directory base custom (file :: rest) =
      discoverIn fs directory base custom rest := by
  rw [discoverIn, unnamed]

theorem discoverIn_theme {file name : Text} {rest : List Text} {themes : Themes}
    (named : nameOf? (directory.join ⟨file⟩) = some name) :
    discoverIn fs directory base custom (file :: rest) = .ok themes ↔ ∃ own others,
      fs.readVariables (directory.join ⟨file⟩) = .ok own ∧
      discoverIn fs directory base custom rest = .ok others ∧
      themes = ⟨addSorted name (overlay (Bindings.ofVariables own).entries base.entries
        ((custom.lookup name).getD [])) others.entries⟩ := by
  simp only [discoverIn, named, bind, Except.bind, pure, Except.pure]
  cases fs.readVariables (directory.join ⟨file⟩) with
  | error e => simp
  | ok own =>
    cases discoverIn fs directory base custom rest with
    | error e => simp
    | ok others => simp [eq_comm]

theorem listed_cons_skip {file : Text} (inner : IsName file)
    (unnamed : nameOf? (directory.join ⟨file⟩) = none) {rest : List Text} {name : Text} :
    Listed (file :: rest) name ↔ Listed rest name := by
  have other : name ≠ [] → name ≠ indexName → name ++ '.' :: sheetExtension ≠ file := by
    intro filled listing same
    rw [(nameOf?_join inner directory).mpr ⟨filled, listing, same⟩] at unnamed
    contradiction
  simp only [Listed, List.mem_cons]
  tauto

theorem listed_cons_theme {file theme : Text} (inner : IsName file)
    (named : nameOf? (directory.join ⟨file⟩) = some theme) {rest : List Text} {name : Text} :
    Listed (file :: rest) name ↔ name = theme ∨ Listed rest name ∧ name ≠ theme := by
  obtain ⟨filled, plain, rfl⟩ := (nameOf?_join inner directory).mp named
  simp only [Listed, List.mem_cons, List.append_left_inj]
  by_cases same : name = theme
  · subst same
    tauto
  · tauto

structure Found (fs : Files) (directory : Path) (base : Bindings) (custom : ThemeTable)
    (listing : List Text) (themes : Themes) : Prop where
  ascending : Ascending themes.entries
  mem : ∀ name values, (name, values) ∈ themes.entries ↔ Listed listing name ∧
    ∃ own, fs.readVariables (sheetOf directory name) = .ok own ∧
      values = overlay (Bindings.ofVariables own).entries base.entries
        ((custom.lookup name).getD [])
  reads : ∀ name, Listed listing name → ∃ own, fs.readVariables (sheetOf directory name) = .ok own

theorem discoverIn_found {listing : List Text} (inner : ∀ file ∈ listing, IsName file)
    {themes : Themes} (found : discoverIn fs directory base custom listing = .ok themes) :
    Found fs directory base custom listing themes := by
  induction listing generalizing themes with
  | nil =>
    cases found
    exact ⟨List.Pairwise.nil, by simp [Listed], by simp [Listed]⟩
  | cons file rest ih =>
    obtain ⟨first, later⟩ := List.forall_mem_cons.mp inner
    cases meaning : nameOf? (directory.join ⟨file⟩) with
    | none =>
      rw [discoverIn_skip meaning] at found
      have known := ih later found
      exact ⟨known.ascending, fun name values => by rw [known.mem, listed_cons_skip first meaning],
        fun name listed => known.reads name ((listed_cons_skip first meaning).mp listed)⟩
    | some theme =>
      obtain ⟨own, others, read, onward, rfl⟩ := (discoverIn_theme meaning).mp found
      have known := ih later onward
      have sheet : sheetOf directory theme = directory.join ⟨file⟩ := by
        rw [sheetOf, ((nameOf?_join first directory).mp meaning).2.2]
      rw [← sheet] at read
      -- The entry of this sheet replaces one of its name, if the directory lists it twice.
      refine ⟨known.ascending.addSorted, fun name values => ?_, fun name listed => ?_⟩
      · rw [mem_addSorted, Prod.mk.injEq, known.mem, listed_cons_theme first meaning]
        by_cases same : name = theme
        · subst same
          simp [read]
        · simp [same]
      · rcases (listed_cons_theme first meaning).mp listed with rfl | ⟨listed, _⟩
        · exact ⟨own, read⟩
        · exact known.reads name listed

theorem discoverIn_total {listing : List Text} (inner : ∀ file ∈ listing, IsName file)
    (reads : ∀ name, Listed listing name →
      ∃ own, fs.readVariables (sheetOf directory name) = .ok own) :
    ∃ themes, discoverIn fs directory base custom listing = .ok themes := by
  induction listing with
  | nil => exact ⟨_, rfl⟩
  | cons file rest ih =>
    obtain ⟨first, later⟩ := List.forall_mem_cons.mp inner
    cases meaning : nameOf? (directory.join ⟨file⟩) with
    | none =>
      rw [discoverIn_skip meaning]
      exact ih later fun name listed => reads name ((listed_cons_skip first meaning).mpr listed)
    | some theme =>
      obtain ⟨filled, plain, rfl⟩ := (nameOf?_join first directory).mp meaning
      obtain ⟨own, read⟩ := reads theme ⟨filled, plain, List.mem_cons_self⟩
      obtain ⟨others, onward⟩ := ih later fun name listed =>
        reads name ⟨listed.1, listed.2.1, List.mem_cons_of_mem _ listed.2.2⟩
      exact ⟨_, (discoverIn_theme meaning).mpr ⟨own, others, read, onward, rfl⟩⟩

end Discover

theorem defaultVariables_ascending (t : Themes) : t.defaultVariables.Pairwise (· < ·) :=
  Text.sortBy_ascending (nodup_eraseDups _)

theorem mem_defaultVariables {t : Themes} {name : Text} : name ∈ t.defaultVariables ↔
    ∃ theme, (theme = darkName ∨ theme = defaultName) ∧
      ∃ values, t.get? theme = some values ∧ (values.get? name).isSome := by
  rw [defaultVariables, Text.sortBy_eq, List.mem_insertionSort, List.mem_eraseDups,
    List.mem_flatMap]
  refine exists_congr fun theme => and_congr (by simp) ?_
  cases t.get? theme with
  | none => simp
  | some values =>
    have bound : name ∈ values.names ↔ (values.get? name).isSome = true := Bindings.contains_iff.symm
    simp [bound]

/-- What discovery has to find: a theme for each sheet but the index; for each variable of it the
user's value, or else the one declared last in the variable file, or else in its own sheet; and the
variables of the dark and the default theme. -/
structure Overlaid (fs : Files) (directory : Path) (base : List Variable) (custom : ThemeTable)
    (listing : List Text) (themes : Themes) : Prop where
  ascending : Ascending themes.entries
  names : ∀ name, (themes.get? name).isSome ↔ Listed listing name
  values : ∀ name values, themes.get? name = some values →
    ∃ own, fs.readVariables (sheetOf directory name) = .ok own ∧ ∀ key,
      values.get? key = (Bindings.last? ((custom.lookup name).getD []) key).or
        ((Variable.last? base key).or (Variable.last? own key))
  exposed : themes.defaultVariables.Pairwise (· < ·) ∧ ∀ key,
    key ∈ themes.defaultVariables ↔ ∃ name, (name = darkName ∨ name = defaultName) ∧
      ∃ values, themes.get? name = some values ∧ (values.get? key).isSome

theorem Found.get? {fs : Files} {directory : Path} {table : Bindings} {custom : ThemeTable}
    {listing : List Text} {themes : Themes} (found : Found fs directory table custom listing themes)
    (name : Text) (values : Bindings) :
    themes.get? name = some values ↔ (name, values) ∈ themes.entries :=
  ⟨Bindings.mem_of_lookup, Bindings.lookup_of_mem found.ascending.distinct⟩

theorem Found.overlaid {fs : Files} {directory : Path} {table : Bindings} {base : List Variable}
    {custom overrides : ThemeTable} {order listing : List Text} {themes : Themes}
    (found : Found fs directory table overrides order themes) (files : order.Perm listing)
    (layer : table.entries.Perm (Bindings.ofVariables base).entries)
    (tables : ∀ name key, Bindings.last? ((overrides.lookup name).getD []) key =
      Bindings.last? ((custom.lookup name).getD []) key) :
    Overlaid fs directory base custom listing themes where
  ascending := found.ascending
  names name := by
    have listed : Listed order name ↔ Listed listing name := by
      rw [Listed, Listed, files.mem_iff]
    rw [← listed]
    constructor
    · intro known
      obtain ⟨values, known⟩ := Option.isSome_iff_exists.mp known
      exact ((found.mem name values).mp ((found.get? name values).mp known)).1
    · intro named
      obtain ⟨own, read⟩ := found.reads name named
      have member := (found.mem name _).mpr ⟨named, own, read, rfl⟩
      rw [(found.get? name _).mpr member]
      rfl
  values name values known := by
    obtain ⟨_, own, read, rfl⟩ := (found.mem name values).mp ((found.get? name values).mp known)
    exact ⟨own, read, fun key => by rw [overlay_get? layer, tables]⟩
  exposed := ⟨defaultVariables_ascending themes, fun _ => mem_defaultVariables⟩

/-- Discovery finds what it has to, in whatever order the directory lists its files and the tables
their variables. -/
theorem discover_overlaid {fs : Files} {directory variableFile : Path} {custom : ThemeTable}
    {themes : Themes} (named : fs.Named)
    (found : discover fs directory variableFile custom = .ok themes) :
    ∃ base listing, fs.readVariables variableFile = .ok base ∧ fs.list directory = .ok listing ∧
      Overlaid fs directory base custom listing themes ∧
      ∀ order (table : Bindings) (overrides : ThemeTable), order.Perm listing →
        table.entries.Perm (Bindings.ofVariables base).entries → overrides.Shuffles custom →
        ∃ other, discoverIn fs directory table overrides order = .ok other ∧
          Overlaid fs directory base custom listing other := by
  simp only [discover, bind, Except.bind] at found
  split at found
  · contradiction
  · rename_i base read
    split at found
    · contradiction
    · rename_i listing listed
      have listed := mapError_eq_ok.mp listed
      have inner := named.list listed
      have known := discoverIn_found inner found
      refine ⟨base, listing, read, listed, known.overlaid (.refl _) (.refl _) fun _ _ => rfl, ?_⟩
      intro order table overrides files layer tables
      have inner : ∀ file ∈ order, Path.IsName file := fun file member =>
        inner file (files.mem_iff.mp member)
      have reads : ∀ name, Listed order name →
          ∃ own, fs.readVariables (sheetOf directory name) = .ok own := by
        intro name named
        rw [Listed, files.mem_iff] at named
        exact known.reads name named
      obtain ⟨other, again⟩ := discoverIn_total inner reads
      refine ⟨other, again, (discoverIn_found inner again).overlaid files layer ?_⟩
      exact fun name key => Bindings.last?_perm (tables name).1 (tables name).2 key

/-- Two themes beside the sheet that lists them, and a variable file. -/
def sampleFiles : Files where
  entries := [(["t"], .directory),
    (["t", "index.less"], .file (Utf8.encode "@import './default';") false),
    (["t", "default.less"], .file (Utf8.encode "@primary-color: #111;\n@text-color: #222;") false),
    (["t", "dark.less"], .file (Utf8.encode "@primary-color: #333;\n@border: #444;") false),
    (["vars.less"], .file (Utf8.encode "@primary-color: #555;") false)]

def sampleOverrides : ThemeTable := [("dark", [("@primary-color", "#666")])]

def sampleThemes : Themes :=
  ⟨[("dark", ⟨[("@primary-color", "#666"), ("@border", "#444")]⟩),
    ("default", ⟨[("@primary-color", "#555"), ("@text-color", "#222")]⟩)]⟩

theorem discover_overlaid_sample :
    let files := sampleFiles
    files.Named ∧ discover files ⟨"t"⟩ ⟨"vars.less"⟩ sampleOverrides = .ok sampleThemes ∧
      sampleThemes.defaultVariables = ["@border", "@primary-color", "@text-color"] ∧
      ∃ base listing, files.readVariables ⟨"vars.less"⟩ = .ok base ∧
        files.list ⟨"t"⟩ = .ok listing ∧
        Overlaid files ⟨"t"⟩ base sampleOverrides listing sampleThemes := by
  intro files
  have named : files.Named := by
    unfold Files.Named
    decide +kernel
  have found : discover files ⟨"t"⟩ ⟨"vars.less"⟩ sampleOverrides = .ok sampleThemes := by rfl
  obtain ⟨base, listing, read, listed, overlaid, _⟩ := discover_overlaid named found
  exact ⟨named, found, by decide +kernel, base, listing, read, listed, overlaid⟩

end Themes
end ColorTheme
