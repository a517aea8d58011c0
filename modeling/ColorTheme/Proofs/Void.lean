import ColorTheme.Proofs.Minify
import ColorTheme.Proofs.Reuse
import ColorTheme.Proofs.Stages

/-!
The empty artifact. The empty text stands for a failure, but a generation can succeed with it: when
no variable is selected, and the sheet and the default theme together hold nothing but comments and
white space that ends with its last line. Then it is written and cached like any other artifact. -/
namespace ColorTheme

namespace Minify

open Text

/-- Without its comments the text is empty, or white space that ends with a line feed. -/
def Vanishes (text : Text) : Prop :=
  ∃ left, Uncommented text left ∧ Blank left ∧ (left = [] ∨ left.getLast? = some '\n')

theorem lastLine_eq_nil {gap : Text} :
    lastLine gap = [] ↔ gap = [] ∨ gap.getLast? = some '\n' := by
  unfold lastLine
  cases cut : cutLast? '\n' gap with
  | none =>
    have single := cutLast?_eq_none.mp cut
    have open' : gap.getLast? ≠ some '\n' := fun last => single (List.mem_of_getLast? last)
    simp [open']
  | some parts =>
    obtain ⟨front, tail⟩ := parts
    have clean : '\n' ∉ tail := cutLast?_clean cut
    rw [cutLast?_eq_append cut]
    cases tail with
    | nil => simp
    | cons c tail =>
      have open' : (c :: tail).getLast? ≠ some '\n' := fun last => clean (List.mem_of_getLast? last)
      simpa [List.getLast?_append] using open'

/-- A rule for gaps leaves nothing just if it leaves nothing of a text that is one gap. -/
theorem regap_eq_nil {rule : GapRule} {closes : Char → Bool} (spares : rule.Spares closes)
    {text : Text} : regap rule text = [] ↔ Blank text ∧ rule none text none = [] := by
  have whole : Blank text → regap rule text = rule none text none := by
    intro blank
    have gap : regapFrom rule none [] (text ++ []) = regapFrom rule none ([] ++ text) [] :=
      regapFrom_blank blank []
    rw [List.append_nil, List.nil_append] at gap
    exact gap
  constructor
  · intro gone
    have spared : List.Forall₂ (Spared closes) (spacing text) (spacing (regap rule text)) :=
      spacing_regapFrom spares blank_nil
    have blank : Blank text := by
      have chars := Spared.chars spared
      rw [gone, spacing_chars, spacing_chars] at chars
      intro c member
      by_contra solid
      have kept : c ∈ text.filter fun c => !isBlank c :=
        List.mem_filter.mpr ⟨member, by simpa using solid⟩
      rw [← chars] at kept
      cases kept
    exact ⟨blank, (whole blank).symm.trans gone⟩
  · rintro ⟨blank, gone⟩
    exact (whole blank).trans gone

theorem compact_ends (gap : Text) : compact none gap none = lastLine gap := by
  have open' : closeGap none (lastLine gap) none = lastLine gap := by simp [closeGap]
  exact open'

theorem minify_eq_nil {css : Text} : minify css = [] ↔ Vanishes css := by
  rw [minify_eq, regap_eq_nil compact_spares, compact_ends, lastLine_eq_nil]
  constructor
  · intro vanishes
    exact ⟨_, uncommented_iff.mpr rfl, vanishes⟩
  · rintro ⟨left, uncommented, vanishes⟩
    rwa [← uncommented_iff.mp uncommented]

theorem not_vanishes {c : Char} (black : isBlank c = false) (other : c ≠ '/') (rest : Text) :
    ¬ Vanishes (c :: rest) := by
  rintro ⟨left, uncommented, blank, _⟩
  have missed : comment none (c :: rest) = none := by
    refine comment_eq_none.mpr fun used behind whole is => ?_
    obtain ⟨more, rfl⟩ := is.slash
    exact other (List.cons.inj whole).1
  rw [uncommented_iff, erase_char comment_local missed] at uncommented
  have white := blank c (uncommented ▸ List.mem_cons_self)
  exact Bool.false_ne_true (black.symm.trans white)

end Minify

theorem Substitution.vanishes_reassemble {selected : List Text} {symbols : Bindings}
    (named : ∀ name ∈ selected, Variable.IsName name) (css defaultTheme : Text) :
    Minify.Vanishes (reassemble css defaultTheme selected symbols) ↔
      selected = [] ∧ Minify.Vanishes (Text.trim css ++ "\n" ++ defaultTheme) := by
  cases selected with
  | nil => simp [reassemble]
  | cons name rest =>
    obtain ⟨word, rfl, _⟩ := named name List.mem_cons_self
    have begins : ∃ more, reassemble css defaultTheme (('@' :: word) :: rest) symbols =
        '@' :: more := ⟨_, rfl⟩
    obtain ⟨more, whole⟩ := begins
    rw [whole]
    simp [Minify.not_vanishes (c := '@') (by decide) (by decide) more]

namespace Generator

variable {σ : Type}

/-- No variable is selected, and what is put together without one vanishes. -/
def Stages.Void (s : Stages) (options : ThemeOptions) : Prop :=
  s.selected options = [] ∧ Minify.Vanishes (Text.trim s.css ++ "\n" ++ s.defaultTheme)

theorem Stages.Follow.artifact_eq_nil {s : Stages} {g : Generator σ} {options : ThemeOptions}
    {fs : Files} {sheets : List Path} {state after : σ}
    (follow : s.Follow g options fs sheets state after) :
    s.artifact options = [] ↔ s.Void options := by
  obtain ⟨classifier, _, merged⟩ := follow.symbols
  have named : ∀ name ∈ s.selected options, Variable.IsName name := by
    intro name chosen
    obtain ⟨_, _, listed, rfl⟩ := declared_symbolsOf merged name (Symbol.mem_names_of_select chosen)
    exact Variable.extract_name listed
  rw [Stages.artifact, Minify.minify_eq_nil, Substitution.vanishes_reassemble named, Stages.Void]

def MakesVoid (g : Generator σ) (options : ThemeOptions) (w : World σ) : Prop :=
  ∃ (s : Stages) (after : σ), s.Follow g options w.files
    (UserSheet.collect w.files options.styleDirs) w.state after ∧ s.Void options

/-- A call that succeeds answers what its maker made: it is the maker itself, or the one of the
artifact in the cache. -/
theorem answered_made {start : World σ} (empty : start.cache = {}) {events : List (Event σ)}
    {w after : World σ} (reached : worldAfter start events = some w) {g : Generator σ}
    {options : ThemeOptions} {artifact : Text}
    (answered : g.tryGenerate options w = some (.ok artifact, after)) :
    ∃ maker earlier origin,
      maker? start (.tryGenerate g options :: events) = some (maker, earlier, origin) ∧
      ∃ last, (maker.make origin.files earlier
        (UserSheet.collect origin.files earlier.styleDirs)).run origin.state =
          some (.ok artifact, last) := by
  have cached : ∃ digest, after.cache = ⟨some digest, artifact⟩ := by
    cases tryGenerate_outcome answered with
    | cached digest read known => exact ⟨digest, by rw [← known]⟩
    | made digest artifact state files read new made written => exact ⟨digest, rfl⟩
  obtain ⟨digest, holds⟩ := cached
  have next : worldAfter start (.tryGenerate g options :: events) = some after := by
    simp [worldAfter, reached, Event.run, answered]
  obtain ⟨⟨maker, earlier, origin⟩, found, made⟩ :=
    maker_cached empty next digest (by rw [holds])
  have same := made.made
  rw [holds] at same
  exact ⟨maker, earlier, origin, found, same⟩

/-- The empty text is answered by a call that fails, and by one that succeeds with an artifact of
which nothing was left when it was made. -/
theorem generate_eq_nil (files : Files) (state : σ) {events : List (Event σ)} {w : World σ}
    (reached : worldAfter { files, state } events = some w) (g : Generator σ)
    (options : ThemeOptions) :
    (∃ after, g.generate options w = some ([], after)) ↔
      (∃ e after, g.tryGenerate options w = some (.error e, after)) ∨
      (∃ artifact after, g.tryGenerate options w = some (.ok artifact, after)) ∧
        ∃ maker earlier origin,
          maker? { files, state } (.tryGenerate g options :: events) =
            some (maker, earlier, origin) ∧ MakesVoid maker earlier origin := by
  rcases tried : g.tryGenerate options w with _ | ⟨e | artifact, after⟩
  · simp [generate, tried]
  · simp [generate, tried, Except.toOption]
  · obtain ⟨maker, earlier, origin, found, last, made⟩ := answered_made rfl reached tried
    have void : artifact = [] ↔ MakesVoid maker earlier origin := by
      constructor
      · intro gone
        obtain ⟨s, follow, whole⟩ := make_eq_ok.mp made
        exact ⟨s, last, follow, follow.artifact_eq_nil.mp (whole.symm.trans gone)⟩
      · -- The maker made one artifact only, so these stages come to it as well.
        rintro ⟨s, ends, follow, nothing⟩
        have again := make_eq_ok.mpr ⟨s, follow, rfl⟩
        have same := (Prod.mk.inj (Option.some.inj (made.symm.trans again))).1
        exact (Except.ok.inj same).trans (follow.artifact_eq_nil.mpr nothing)
    simp [generate, tried, Except.toOption, void, found]

def bareFiles : Files :=
  smallFiles.put ["l", "style", "themes", "default.less"] (.file [] false)

theorem tryGenerate_bare : ∃ after, smallGenerator.tryGenerate smallOptions
    { files := bareFiles, state := () } = some (.ok [], after) := by
  have evaluated : (smallGenerator.tryGenerate smallOptions
      { files := bareFiles, state := () }).any (fun out => decide (out.1 = .ok [])) = true := by
    decide +kernel
  simp only [Option.any_eq_true, decide_eq_true_eq] at evaluated
  obtain ⟨⟨_, after⟩, tried, rfl⟩ := evaluated
  exact ⟨after, tried⟩

/-- A call before which nothing happened. -/
theorem generate_eq_nil_first : ∃ after,
    worldAfter { files := bareFiles, state := () } ([] : List (Event Unit)) =
      some { files := bareFiles, state := () } ∧
    smallGenerator.generate smallOptions { files := bareFiles, state := () } = some ([], after) ∧
    ∃ maker earlier origin, maker? { files := bareFiles, state := () }
      [.tryGenerate smallGenerator smallOptions] = some (maker, earlier, origin) ∧
        MakesVoid maker earlier origin := by
  obtain ⟨after, tried⟩ := tryGenerate_bare
  have empty : smallGenerator.generate smallOptions { files := bareFiles, state := () } =
      some ([], after) := generate_eq_some.mpr ⟨_, tried, rfl⟩
  have start : worldAfter { files := bareFiles, state := () } ([] : List (Event Unit)) =
      some { files := bareFiles, state := () } := rfl
  refine ⟨after, start, empty, ?_⟩
  rcases (generate_eq_nil bareFiles () start smallGenerator smallOptions).mp
    ⟨after, empty⟩ with ⟨e, other, failed⟩ | ⟨_, made⟩
  · cases tried.symm.trans failed
  · exact made

/-- The empty text need not mean a failure: the artifact of a library without a rule is empty, and
the generation succeeds. -/
theorem generate_eq_nil_bare :
    ¬ ∀ (files : Files) (state : Unit) (events : List (Event Unit)) (w : World Unit),
      worldAfter { files, state } events = some w →
      ∀ (g : Generator Unit) (options : ThemeOptions),
        (∃ after, g.generate options w = some ([], after)) ↔
          ∃ e after, g.tryGenerate options w = some (.error e, after) := by
  intro always
  obtain ⟨after, tried⟩ := tryGenerate_bare
  have empty : smallGenerator.generate smallOptions { files := bareFiles, state := () } =
      some ([], after) := generate_eq_some.mpr ⟨_, tried, rfl⟩
  obtain ⟨e, other, failed⟩ :=
    (always bareFiles () [] _ rfl smallGenerator smallOptions).mp ⟨after, empty⟩
  cases tried.symm.trans failed

end Generator
end ColorTheme
