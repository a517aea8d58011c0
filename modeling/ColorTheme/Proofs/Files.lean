import ColorTheme.Files

/-!
What is written can be read. A change that takes nothing away and keeps directories does not
change where a path leads, so a file is found again after it was written, made longer, or joined
by new directories. -/
namespace ColorTheme

theorem mapError_error {ε δ α : Type} (f : ε → δ) (e : ε) :
    (.error e : Except ε α).mapError f = .error (f e) := rfl

theorem mapError_ok {ε δ α : Type} (f : ε → δ) (a : α) :
    (.ok a : Except ε α).mapError f = .ok a := rfl

theorem mapError_eq_ok {ε δ α : Type} {f : ε → δ} {x : Except ε α} {a : α} :
    x.mapError f = .ok a ↔ x = .ok a := by
  cases x with
  | error e => simp [mapError_error]
  | ok b => simp [mapError_ok]

namespace Files

theorem lookup_setEntry (place other : Location) (entry : Entry)
    (entries : List (Location × Entry)) :
    (setEntry place entry entries).lookup other =
      if other = place then some entry else entries.lookup other := by
  induction entries with
  | nil =>
    by_cases same : other = place
    · simp [setEntry, same]
    · have miss : (other == place) = false := by simpa using same
      simp [setEntry, List.lookup_cons, same, miss]
  | cons head rest ih =>
    obtain ⟨first, old⟩ := head
    by_cases known : first = place
    · subst known
      by_cases same : other = first
      · simp [setEntry, same]
      · have miss : (other == first) = false := by simpa using same
        simp [setEntry, List.lookup_cons, same, miss]
    · by_cases found : other = first
      · simp [setEntry, known, found]
      · have miss : (other == first) = false := by simpa using found
        simp [setEntry, List.lookup_cons, known, miss, ih]

theorem at?_put {fs : Files} {place : Location} {entry : Entry} (inner : place ≠ [])
    (other : Location) :
    (fs.put place entry).at? other = if other = place then some entry else fs.at? other := by
  unfold at? put
  cases other with
  | nil => simp [inner.symm]
  | cons name rest => simp [lookup_setEntry]

theorem ne_root {fs : Files} {place : Location} (file : fs.isDirectory place = false) :
    place ≠ [] := by
  rintro rfl
  simp [isDirectory, at?] at file

/-- Nothing is taken away, and directories stay directories. -/
structure Extends (fs more : Files) : Prop where
  current : more.current = fs.current
  directories : ∀ place, fs.isDirectory place = true → more.isDirectory place = true
  present : ∀ place, (fs.at? place).isSome = true → (more.at? place).isSome = true

theorem put_extends {fs : Files} {place : Location} (file : fs.isDirectory place = false)
    (entry : Entry) : Extends fs (fs.put place entry) where
  current := rfl
  directories other known := by
    have apart : other ≠ place := by
      rintro rfl
      exact Bool.false_ne_true (file.symm.trans known)
    rw [isDirectory, at?_put (ne_root file), if_neg apart]
    exact known
  present other known := by
    rw [at?_put (ne_root file)]
    split
    · rfl
    · exact known

section Extends

variable {fs more : Files} (extended : Extends fs more)

include extended

theorem Extends.enter {place inner : Location} {part : Text}
    (entered : fs.enter place part = .ok inner) : more.enter place part = .ok inner := by
  cases directory : fs.isDirectory place with
  | false => simp [Files.enter, directory] at entered
  | true =>
    have kept := extended.directories place directory
    simp only [Files.enter, directory, kept, Bool.not_true, Bool.false_eq_true, if_false] at entered ⊢
    split
    · rename_i here
      rwa [if_pos here] at entered
    · rename_i other
      rw [if_neg other] at entered
      split
      · rename_i up
        rwa [if_pos up] at entered
      · rename_i named
        rw [if_neg named] at entered
        by_cases below : (fs.at? (place ++ [part])).isSome = true
        · rw [if_pos below] at entered
          rw [if_pos (extended.present _ below)]
          exact entered
        · rw [if_neg below] at entered
          contradiction

theorem Extends.enterAll {place inner : Location} {parts : List Text}
    (entered : fs.enterAll place parts = .ok inner) : more.enterAll place parts = .ok inner := by
  induction parts generalizing place with
  | nil => exact entered
  | cons part rest ih =>
    unfold Files.enterAll at entered ⊢
    split at entered
    · contradiction
    · rename_i next step
      rw [extended.enter step]
      exact ih entered

theorem Extends.locate {path : Path} {place : Location} (found : fs.locate path = .ok place) :
    more.locate path = .ok place := by
  unfold Files.locate at found ⊢
  split at found
  · contradiction
  · rename_i filled
    have origin : more.origin path = fs.origin path := by simp [Files.origin, extended.current]
    rw [if_neg filled, origin]
    exact extended.enterAll found

end Extends

theorem read_eq_ok {fs : Files} {path : Path} {bytes : Bytes} :
    fs.read path = .ok bytes ↔ ∃ place executable, fs.locate path = .ok place ∧
      fs.at? place = some (.file bytes executable) := by
  unfold read
  cases found : fs.locate path with
  | error e => simp [bind, Except.bind]
  | ok place =>
    simp only [bind, Except.bind, Except.ok.injEq, exists_and_left, exists_eq_left']
    cases fs.at? place with
    | none => simp [throw, throwThe, MonadExceptOf.throw]
    | some entry => cases entry <;> simp [throw, throwThe, MonadExceptOf.throw, pure, Except.pure]

theorem enterAll_append (fs : Files) (place : Location) (front back : List Text) :
    fs.enterAll place (front ++ back) = (fs.enterAll place front).bind (fs.enterAll · back) := by
  induction front generalizing place with
  | nil => rfl
  | cons part front ih =>
    simp only [List.cons_append, enterAll]
    cases fs.enter place part with
    | error e => rfl
    | ok next => exact ih next

theorem enter_notFound {fs : Files} {place : Location} {part : Text}
    (missing : fs.enter place part = .error .notFound) :
    fs.at? (place ++ [part]) = none ∧ ∀ more : Files, more.isDirectory place = true →
      (more.at? (place ++ [part])).isSome = true → more.enter place part = .ok (place ++ [part]) := by
  simp only [enter] at missing
  split at missing
  · cases missing
  · split at missing
    · contradiction
    · rename_i plain
      split at missing
      · contradiction
      · rename_i named
        split at missing
        · contradiction
        · rename_i absent
          refine ⟨by simpa using absent, fun more directory present => ?_⟩
          simp only [enter, directory, Bool.not_true, Bool.false_eq_true, if_false, if_neg plain,
            if_neg named, if_pos present]

theorem target_missing {fs : Files} {path : Path} {place : Location}
    (missing : fs.locate path = .error .notFound) (found : fs.target path = .ok place) :
    ∃ front name directory, path.text.splitOn '/' = front ++ [name] ∧
      fs.enterAll (fs.origin path) front = .ok directory ∧
      fs.enter directory name = .error .notFound ∧ path.text.isEmpty = false ∧
      fs.isDirectory directory = true ∧ place = directory ++ [name] := by
  simp only [target, missing] at found
  split at found
  · contradiction
  · rename_i name last
    obtain ⟨front, parts⟩ := List.getLast?_eq_some_iff.mp last
    rw [parts, List.dropLast_concat] at found
    split at found
    · contradiction
    · rename_i directory entered
      split at found
      · contradiction
      · rename_i filled
        split at found
        · contradiction
        · rename_i inner
          split at found
          · contradiction
          · cases found
            have lost : fs.enter directory name = .error .notFound := by
              rw [locate, if_neg filled, parts, enterAll_append, entered] at missing
              simp only [Except.bind, enterAll] at missing
              split at missing
              · rename_i e entered
                cases missing
                exact entered
              · contradiction
            exact ⟨front, name, directory, parts, entered, lost, by simpa using filled,
              by simpa using inner, rfl⟩

/-- A file can be put where it would stand, and it stands there then. -/
theorem locate_target {fs : Files} {path : Path} {place : Location}
    (found : fs.target path = .ok place) (entry : Entry) :
    fs.isDirectory place = false ∧ (fs.put place entry).locate path = .ok place := by
  cases known : fs.locate path with
  | ok there =>
    simp only [target, known] at found
    split at found
    · contradiction
    · rename_i file
      cases found
      have file : fs.isDirectory place = false := by simpa using file
      exact ⟨file, (put_extends file entry).locate known⟩
  | error e =>
    have reason : e = .notFound := by
      cases e <;> first | rfl | simp [target, known] at found
    subst reason
    obtain ⟨front, name, directory, parts, entered, lost, filled, inner, rfl⟩ :=
      target_missing known found
    -- The name was missing in its directory, and with the new entry it is entered.
    obtain ⟨absent, enters⟩ := enter_notFound lost
    have file : fs.isDirectory (directory ++ [name]) = false := by simp [isDirectory, absent]
    have extended := put_extends file entry
    refine ⟨file, ?_⟩
    have stands : ((fs.put (directory ++ [name]) entry).at? (directory ++ [name])).isSome = true := by
      simp [at?_put (ne_root file)]
    have last := enters _ (extended.directories directory inner) stands
    have origin : (fs.put (directory ++ [name]) entry).origin path = fs.origin path := rfl
    rw [locate, filled, parts, enterAll_append, origin, extended.enterAll entered]
    simp [Except.bind, enterAll, last]

theorem write_eq_ok {fs more : Files} {path : Path} {bytes : Bytes}
    (written : fs.write path bytes = .ok more) : ∃ place executable,
      fs.target path = .ok place ∧ more = fs.put place (.file bytes executable) := by
  unfold write at written
  cases found : fs.target path with
  | error e => simp [found, bind, Except.bind] at written
  | ok place =>
    simp only [found, bind, Except.bind, pure, Except.pure] at written
    split at written
    · cases written
      exact ⟨place, _, rfl, rfl⟩
    · cases written
      exact ⟨place, _, rfl, rfl⟩

theorem read_write {fs more : Files} {path : Path} {bytes : Bytes}
    (written : fs.write path bytes = .ok more) : more.read path = .ok bytes := by
  obtain ⟨place, executable, found, rfl⟩ := write_eq_ok written
  obtain ⟨file, located⟩ := locate_target found (.file bytes executable)
  exact read_eq_ok.mpr ⟨place, executable, located, by simp [at?_put (ne_root file)]⟩

/-- Writing changes one place, to which the path then leads. -/
theorem write_place {fs more : Files} {path : Path} {bytes : Bytes}
    (written : fs.write path bytes = .ok more) : ∃ place, more.locate path = .ok place ∧
      ∀ other, other ≠ place → more.at? other = fs.at? other := by
  obtain ⟨place, executable, found, rfl⟩ := write_eq_ok written
  obtain ⟨file, located⟩ := locate_target found (.file bytes executable)
  refine ⟨place, located, fun other apart => ?_⟩
  rw [at?_put (ne_root file), if_neg apart]

theorem read_append {fs : Files} {path : Path} {old : Bytes} (there : fs.read path = .ok old)
    (bytes : Bytes) :
    ∃ more, fs.append path bytes = .ok more ∧ more.read path = .ok (old ++ bytes) := by
  obtain ⟨place, executable, located, known⟩ := read_eq_ok.mp there
  have file : fs.isDirectory place = false := by simp [isDirectory, known]
  have found : fs.target path = .ok place := by simp [target, located, file]
  refine ⟨fs.put place (.file (old ++ bytes) executable), ?_, ?_⟩
  · simp [append, found, known, bind, Except.bind, pure, Except.pure]
  · obtain ⟨_, placed⟩ := locate_target found (.file (old ++ bytes) executable)
    exact read_eq_ok.mpr ⟨place, executable, placed, by simp [at?_put (ne_root file)]⟩

theorem makeAll_keeps {fs more : Files} {place : Location} {parts : List Text}
    (made : fs.makeAll place parts = .ok more) :
    more.current = fs.current ∧ ∀ other entry, fs.at? other = some entry →
      more.at? other = some entry := by
  induction parts generalizing fs place with
  | nil =>
    unfold makeAll at made
    split at made
    · cases made
      exact ⟨rfl, fun _ _ known => known⟩
    · contradiction
  | cons part rest ih =>
    unfold makeAll at made
    split at made
    · exact ih made
    · rename_i missing
      obtain ⟨same, later⟩ := ih made
      refine ⟨same, fun other entry known => later other entry ?_⟩
      have apart : other ≠ place ++ [part] := by
        rintro rfl
        rw [(enter_notFound missing).1] at known
        contradiction
      rw [at?_put (by simp), if_neg apart]
      exact known
    · contradiction

theorem read_makeDirectories {fs more : Files} {directory path : Path} {bytes : Bytes}
    (made : fs.makeDirectories directory = .ok more) (there : fs.read path = .ok bytes) :
    more.read path = .ok bytes := by
  obtain ⟨current, kept⟩ := makeAll_keeps made
  have extended : Extends fs more := {
    current
    directories := fun place known => by
      have same := kept place .directory (by simpa [isDirectory] using known)
      simp [isDirectory, same]
    present := fun place known => by
      obtain ⟨entry, same⟩ := Option.isSome_iff_exists.mp known
      simp [kept place entry same] }
  obtain ⟨place, executable, located, known⟩ := read_eq_ok.mp there
  exact read_eq_ok.mpr ⟨place, executable, extended.locate located, kept place _ known⟩

end Files
end ColorTheme
