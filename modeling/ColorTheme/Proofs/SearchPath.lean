import ColorTheme.Lessc

/-!
The search paths of a compilation among the arguments of its command. They are one argument, which
names each of them in order as long as none holds the separator; otherwise the command gets no
search path at all. -/
namespace ColorTheme.Lessc

/-- What stands in front of the joined search paths. -/
def includeOption : Text := "--include-path="

/-- The paths that a command reads from the text of the argument. -/
def splitPaths (joined : Text) : List Path := (joined.splitOn pathSeparator).map Path.mk

theorem joinPaths?_eq_some {paths : List Path} {joined : Text} : joinPaths? paths = some joined ↔
    (∀ path ∈ paths, pathSeparator ∉ path.text) ∧
      joined = [pathSeparator].intercalate (paths.map Path.text) := by
  unfold joinPaths?
  split
  · rename_i held
    obtain ⟨path, member, inside⟩ := List.any_eq_true.mp held
    have refused : ¬ ∀ path ∈ paths, pathSeparator ∉ path.text := fun clean =>
      clean path member (List.contains_iff_mem.mp inside)
    simp [refused]
  · rename_i held
    have clean : ∀ path ∈ paths, pathSeparator ∉ path.text := by simpa using held
    rw [Option.some.injEq, eq_comm]
    exact (and_iff_right clean).symm

theorem splitPaths_joined {paths : List Path} {joined : Text} (filled : paths ≠ [])
    (join : joinPaths? paths = some joined) : splitPaths joined = paths := by
  obtain ⟨clean, rfl⟩ := joinPaths?_eq_some.mp join
  have inner : ∀ text ∈ paths.map Path.text, pathSeparator ∉ text := by
    intro text member
    obtain ⟨path, listed, rfl⟩ := List.mem_map.mp member
    exact clean path listed
  have parts : ([pathSeparator].intercalate (paths.map Path.text)).splitOn pathSeparator =
      paths.map Path.text := by
    apply List.splitOn_intercalate pathSeparator inner
    simpa using filled
  rw [splitPaths, parts, List.map_map]
  exact List.map_id paths

theorem pathArgument?_eq_some {paths : List Path} {argument : Text} :
    pathArgument? paths = some argument ↔
      paths ≠ [] ∧ ∃ joined, joinPaths? paths = some joined ∧ argument = includeOption ++ joined := by
  unfold pathArgument?
  split
  · rename_i empty
    simp [List.isEmpty_iff.mp empty]
  · rename_i filled
    have filled : paths ≠ [] := by simpa using filled
    rw [Option.map_eq_some_iff]
    constructor
    · rintro ⟨joined, join, same⟩
      exact ⟨filled, joined, join, same.symm⟩
    · rintro ⟨_, joined, join, same⟩
      exact ⟨joined, join, same.symm⟩

theorem mem_arguments {lessc : Lessc} {request : Request} {joined : Text} :
    includeOption ++ joined ∈ lessc.arguments request ↔
      pathArgument? request.effectivePaths = some (includeOption ++ joined) := by
  -- Three characters tell the arguments apart.
  have start : (includeOption ++ joined).take 3 = "--i".toList :=
    (List.take_append_of_le_length (by decide)).trans (by decide)
  have apart : ∀ {text : Text}, text.take 3 ≠ "--i".toList → includeOption ++ joined ≠ text :=
    fun other same => other (same ▸ start)
  have scripts : includeOption ++ joined ∉
      (if request.scripts then ["--js".toList] else [] : List Text) := by
    split
    · exact mt List.mem_singleton.mp (apart (by decide))
    · exact List.not_mem_nil
  have modules : includeOption ++ joined ∉ (lessc.moduleArgument? request).toList := by
    intro member
    rw [Option.mem_toList, moduleArgument?] at member
    split at member
    · obtain ⟨mark, _, same⟩ := Option.map_eq_some_iff.mp member
      have other : (("--npm-import=prefix=" : Text) ++ mark).take 3 = "--n".toList :=
        (List.take_append_of_le_length (by decide)).trans (by decide)
      exact apart (other ▸ by decide) same.symm
    · contradiction
  have source : includeOption ++ joined ∉ ["-".toList] :=
    mt List.mem_singleton.mp (apart (by decide))
  simp only [arguments, List.mem_append, scripts, modules, source, false_or, or_false,
    Option.mem_toList]

/-- An argument of search paths names just the effective ones, in order. There is one if there are
such paths and the separator stands in none of them. -/
theorem splitPaths_arguments (lessc : Lessc) (request : Request) :
    (∀ joined, includeOption ++ joined ∈ lessc.arguments request →
      splitPaths joined = request.effectivePaths) ∧
    ((∃ joined, includeOption ++ joined ∈ lessc.arguments request) ↔
      request.effectivePaths ≠ [] ∧ ∀ path ∈ request.effectivePaths, pathSeparator ∉ path.text) := by
  constructor
  · intro joined member
    obtain ⟨filled, text, join, same⟩ := pathArgument?_eq_some.mp (mem_arguments.mp member)
    obtain rfl := List.append_cancel_left same
    exact splitPaths_joined filled join
  · constructor
    · rintro ⟨joined, member⟩
      obtain ⟨filled, text, join, _⟩ := pathArgument?_eq_some.mp (mem_arguments.mp member)
      exact ⟨filled, (joinPaths?_eq_some.mp join).1⟩
    · rintro ⟨filled, clean⟩
      have join := joinPaths?_eq_some.mpr ⟨clean, rfl⟩
      exact ⟨_, mem_arguments.mpr (pathArgument?_eq_some.mpr ⟨filled, _, join, rfl⟩)⟩

theorem splitPaths_arguments_directory :
    let request : Request :=
      { source := [], searchPaths := [⟨"lib"⟩, ⟨"styles/"⟩, ⟨"lib"⟩], file := some ⟨"styles/a.less"⟩ }
    let joined : Text := "styles:lib"
    includeOption ++ joined ∈ arguments {} request ∧
      splitPaths joined = request.effectivePaths ∧ request.effectivePaths = [⟨"styles"⟩, ⟨"lib"⟩] := by
  intro request joined
  have member : includeOption ++ joined ∈ arguments {} request := by decide
  exact ⟨member, (splitPaths_arguments {} request).1 joined member, by decide⟩

/-- A separator in one path takes all of them from the command. -/
theorem splitPaths_arguments_separator :
    ¬ ∀ (lessc : Lessc) (request : Request), request.effectivePaths ≠ [] →
      ∃ joined, includeOption ++ joined ∈ lessc.arguments request ∧
        splitPaths joined = request.effectivePaths := by
  intro always
  obtain ⟨joined, member, _⟩ :=
    always {} { source := [], searchPaths := [⟨"a:b"⟩, ⟨"lib"⟩] } (by decide)
  have refused : pathArgument? [⟨"a:b"⟩, ⟨"lib"⟩] = none := by decide
  have given := mem_arguments.mp member
  exact absurd (refused.symm.trans given) nofun

end ColorTheme.Lessc
