import ColorTheme.Proofs.Directive

/-!
Imports that a user's sheet loses. Each line loses the directive of its widest reading where that
names a listed sheet, with all that the reading reaches over. The sheet loses the imports of listed
sheets and nothing else where these are the directives with one plain target. -/
namespace ColorTheme.UserSheet

/-- What the target of a single directive is made of. -/
def isPlain (c : Char) : Bool := !Variable.isQuote c && c ≠ ';' && c ≠ '\n'

/-- A directive with one plain target between two equal marks. -/
def Directive.Single (d : Directive) : Prop :=
  d.closing = d.opening ∧ ∀ c ∈ d.target, isPlain c = true

instance (d : Directive) : Decidable d.Single :=
  decidable_of_iff (d.closing = d.opening ∧ d.target.all isPlain = true)
    (and_congr_right' List.all_eq_true)

def isListed (path : Path) (listed : List Path) (target : Text) : Bool :=
  listed.any (Path.same (importedFile path.directory target))

/-- What is left of a directive. -/
def kept (path : Path) (listed : List Path) (d : Directive) : Text :=
  if isListed path listed d.target then [] else d.text

/-- What a line becomes: without the directive of its widest reading if that is listed, else as
it is. -/
def Dropped (path : Path) (listed : List Path) (line out : Text) : Prop :=
  (∃ r, Widest line r ∧ out = r.front ++ (kept path listed r.directive ++ r.back)) ∨
    ((∀ r, ¬Reads line r) ∧ out = line)

/-- A single directive that starts here. -/
def singleDirective : Text.Matcher Directive := fun _ here => do
  let text ← Text.after? "@import " here
  match text with
  | [] => none
  | c :: rest =>
    if Variable.isQuote c then
      let left ← Text.after? [c, ';'] (rest.dropWhile isPlain)
      return (⟨c, rest.takeWhile isPlain, c⟩, left)
    else none

/-- The sheet without its single directives that are listed. -/
def withoutListed (path : Path) (listed : List Path) (content : Text) : Text :=
  Text.replaceBy (fun before here => (singleDirective before here).map fun (d, left) =>
    (kept path listed d, left)) content

section Dropping

variable {path : Path} {listed : List Path}

/-- A directive that is found, with what becomes of it. -/
def dropping (path : Path) (listed : List Path) : Text.Matcher Text := fun before here =>
  (importDirective before here).map fun (hit, left) =>
    (if isListed path listed hit.2 then [] else hit.1, left)

theorem dropping_local : (dropping path listed).Local :=
  importDirective_local.map fun hit => if isListed path listed hit.2 then [] else hit.1

theorem dropping_inLine : (dropping path listed).InLine :=
  importDirective_inLine.map fun hit => if isListed path listed hit.2 then [] else hit.1

theorem dropListed_found {d : Directive} {left : Text}
    (found : importDirective none (d.text ++ left) = some ((d.text, d.target), left)) :
    dropListed path listed (d.text ++ left) = kept path listed d ++ dropListed path listed left :=
  Text.replaceBy_match dropping_local (by rw [dropping, found, Option.map_some]; rfl)

theorem Dropped.cons {c : Char} {rest out : Text} (single : '\n' ∉ c :: rest)
    (missed : importDirective none (c :: rest) = none) (dropped : Dropped path listed rest out) :
    Dropped path listed (c :: rest) (c :: out) := by
  rcases dropped with ⟨r, widest, rfl⟩ | ⟨plain, rfl⟩
  · exact .inl ⟨_, widest.cons single missed, rfl⟩
  · refine .inr ⟨fun r reads => ?_, rfl⟩
    obtain ⟨front, _, inner⟩ := reads.tail single missed
    exact plain _ inner

theorem dropListed_line {line : Text} (single : '\n' ∉ line) :
    Dropped path listed line (dropListed path listed line) := by
  induction line using Text.search_induction importDirective_local with
  | nil => exact .inr ⟨Unclosed.unread (by simp [Unclosed]), rfl⟩
  | char c rest missed ih =>
    have kept : dropListed path listed (c :: rest) = c :: dropListed path listed rest :=
      Text.replaceBy_char dropping_local (by rw [dropping, missed, Option.map_none])
    rw [kept]
    exact (ih fun member => single (List.mem_cons_of_mem c member)).cons single missed
  | found here hit left known ih =>
    obtain ⟨found, target⟩ := hit
    obtain ⟨d, quoted, _, rfl, rfl, rfl, unclosed⟩ := importDirective_eq_some.mp known
    have behind : '\n' ∉ left := fun member => single (List.mem_append_right _ member)
    rw [takeWhile_single behind] at unclosed
    refine .inl ⟨⟨[], d, left⟩, unclosed.widest quoted, ?_⟩
    rcases ih behind with ⟨r, widest, _⟩ | ⟨_, same⟩
    · exact absurd widest.1 (unclosed.unread r)
    · rw [dropListed_found known, same, List.nil_append]

theorem dropListed_lines (path : Path) (listed : List Path) (content : Text) : ∃ outs,
    List.Forall₂ (Dropped path listed) (Text.lines content) outs ∧
      dropListed path listed content = Text.joinLines outs := by
  refine ⟨(Text.lines content).map (dropListed path listed), ?_, ?_⟩
  · rw [List.forall₂_map_right_iff, List.forall₂_same]
    exact fun line member => dropListed_line (notMem_of_mem_splitOn member)
  · exact Text.replaceBy_lines dropping_local dropping_inLine content

end Dropping

theorem singleDirective_eq_some {before : Option Char} {here left : Text} {d : Directive} :
    singleDirective before here = some (d, left) ↔ here = d.text ++ left ∧ d.Quoted ∧ d.Single := by
  constructor
  · intro hit
    simp only [singleDirective, Option.bind_eq_bind, Option.bind_eq_some_iff] at hit
    obtain ⟨text, after, hit⟩ := hit
    split at hit
    · contradiction
    · rename_i c rest
      obtain ⟨opens, hit⟩ := Option.ite_none_right_eq_some.mp hit
      obtain ⟨behind, closes, same⟩ := Option.bind_eq_some_iff.mp hit
      cases same
      have split : rest = rest.takeWhile isPlain ++ c :: ';' :: left := by
        calc rest
          _ = rest.takeWhile isPlain ++ rest.dropWhile isPlain :=
            List.takeWhile_append_dropWhile.symm
          _ = rest.takeWhile isPlain ++ c :: ';' :: left := by
            rw [Text.after?_eq_some.mp closes, List.cons_append, List.singleton_append]
      refine ⟨?_, ⟨opens, opens⟩, rfl, List.all_eq_true.mp List.all_takeWhile⟩
      rw [Directive.text_append, ← split]
      exact Text.after?_eq_some.mp after
  · rintro ⟨rfl, ⟨opens, closes⟩, same, plain⟩
    have stops : (d.closing :: ';' :: left).head?.any isPlain = false := by simp [isPlain, closes]
    obtain ⟨target, behind⟩ := Text.run_append plain stops
    rw [singleDirective, d.after_text left]
    simp only [Option.bind_eq_bind, Option.bind_some, opens, if_true]
    have matched : Text.after? [d.opening, ';'] (d.closing :: ';' :: left) = some left :=
      same ▸ Text.after?_append [d.closing, ';'] left
    have whole : (⟨d.opening, d.target, d.opening⟩ : Directive) = d := by
      cases d
      cases same
      rfl
    rw [target, behind, matched, whole]
    rfl

theorem singleDirective_local : singleDirective.Local where
  blind _ _ _ := rfl
  covers hit := by
    obtain ⟨rfl, _⟩ := singleDirective_eq_some.mp hit
    obtain ⟨c, used, text⟩ := List.exists_cons_of_ne_nil (Directive.text_ne_nil _)
    exact ⟨c, used, by rw [text]⟩

theorem singleDirective_inLine : singleDirective.InLine := by
  intro before line rest single
  refine Option.ext fun ⟨d, left⟩ => ?_
  rw [Option.map_eq_some_iff, singleDirective_eq_some]
  constructor
  · rintro ⟨whole, quoted, same, plain⟩
    have inner : '\n' ∉ d.target := fun feed => absurd (plain _ feed) (by decide)
    obtain ⟨more, rfl, rfl⟩ := Text.split_behind whole.symm (Directive.notMem_text quoted inner)
    exact ⟨(d, more), singleDirective_eq_some.mpr ⟨rfl, quoted, same, plain⟩, rfl⟩
  · rintro ⟨⟨_, more⟩, hit, same⟩
    cases same
    obtain ⟨rfl, stated⟩ := singleDirective_eq_some.mp hit
    exact ⟨by simp, stated⟩

/-- Inside the target of a single directive no other begins. -/
theorem Directive.Single.inner {d e : Directive} (plain : d.Single) (quoted : d.Quoted)
    (other : e.Single) (marks : e.Quoted) {start rest back left : Text}
    (target : d.target = start ++ rest) :
    rest ++ d.closing :: ';' :: back ≠ e.text ++ left := by
  intro same
  -- The first mark on the left closes `d`, the one on the right opens `e`.
  have before : ∀ c ∈ rest, (!Variable.isQuote c) = true := fun c member => by
    have inner := plain.2 c (target ▸ List.mem_append_right start member)
    simp only [isPlain, Bool.and_eq_true] at inner
    exact inner.1.1
  have word : ∀ c ∈ keyword, (!Variable.isQuote c) = true := List.all_eq_true.mp (by decide)
  have closing : (d.closing :: ';' :: back).head?.any (!Variable.isQuote ·) = false := by
    simp [quoted.2]
  have opening : (e.opening :: (e.target ++ e.closing :: ';' :: left)).head?.any
      (!Variable.isQuote ·) = false := by simp [marks.1]
  have behind := (Text.run_append before closing).2
  rw [same, e.text_append, (Text.run_append word opening).2] at behind
  obtain ⟨_, later⟩ := List.cons.inj behind
  cases empty : e.target with
  | nil =>
    rw [empty, List.nil_append] at later
    exact absurd ((List.cons.inj later).1 ▸ marks.2) (by decide)
  | cons c inner =>
    rw [empty, List.cons_append] at later
    have semicolon := other.2 c (by simp [empty])
    exact absurd ((List.cons.inj later).1 ▸ semicolon) (by decide)

theorem Directive.text_sign (d : Directive) : d.text =
    '@' :: (("import ".toList ++ [d.opening]) ++ (d.target ++ [d.closing, ';'])) := by
  rw [text, show keyword = '@' :: "import ".toList by decide]
  simp

/-- Behind its first character only the target of a directive can hold the sign of another. -/
theorem Directive.Quoted.target {d : Directive} (quoted : d.Quoted) {gap more : Text}
    (filled : gap ≠ []) (text : d.text = gap ++ '@' :: more) :
    ∃ start rest, d.target = start ++ '@' :: rest ∧ more = rest ++ [d.closing, ';'] := by
  obtain ⟨opens, closes⟩ := quoted
  obtain ⟨c, gap, rfl⟩ := List.exists_cons_of_ne_nil filled
  rw [d.text_sign] at text
  have before : '@' ∉ "import ".toList ++ [d.opening] := by
    have other : '@' ≠ d.opening := fun same => absurd (same ▸ opens) (by decide)
    have word : '@' ∉ "import ".toList := by decide
    exact List.not_mem_append word (by simpa using other)
  have behind : '@' ∉ [d.closing, ';'] := by
    have other : '@' ≠ d.closing := fun same => absurd (same ▸ closes) (by decide)
    simpa using other
  obtain ⟨start, _, split⟩ := Text.split_behind (List.cons.inj text).2 before
  obtain ⟨rest, target⟩ := Text.split_before split behind
  rw [target, List.append_assoc] at split
  exact ⟨start, rest, target, (List.cons.inj (List.append_cancel_left split)).2.symm⟩

/-- A single directive is over before the next one begins, so all of them can go at once. -/
theorem Reads.apart {line : Text} {r s : Reading} (first : Reads line r)
    (plain : r.directive.Single) (second : Reads line s) (other : s.directive.Single)
    (earlier : r.front.length < s.front.length) :
    r.front.length + r.directive.text.length ≤ s.front.length := by
  by_contra overlap
  obtain ⟨rfl, quoted⟩ := first
  obtain ⟨gap, front, inside⟩ : ∃ gap, s.front = r.front ++ gap ∧
      r.directive.text ++ r.back = gap ++ (s.directive.text ++ s.back) := by
    rcases List.append_eq_append_iff.mp second.1 with ⟨gap, front, inside⟩ | ⟨gap, front, _⟩
    · exact ⟨gap, front, inside⟩
    · rw [front, List.length_append] at earlier
      omega
  rw [front, List.length_append] at earlier overlap
  obtain ⟨tail, text, later⟩ : ∃ tail, r.directive.text = gap ++ tail ∧
      s.directive.text ++ s.back = tail ++ r.back := by
    rcases List.append_eq_append_iff.mp inside with ⟨tail, gap, _⟩ | ⟨tail, text, later⟩
    · rw [gap, List.length_append] at overlap
      omega
    · exact ⟨tail, text, later⟩
  have filled : gap ≠ [] := by
    rintro rfl
    simp at earlier
  cases tail with
  | nil =>
    rw [text, List.append_nil] at overlap
    omega
  | cons c more =>
    obtain rfl : '@' = c := by
      rw [s.directive.text_sign] at later
      exact (List.cons.inj later).1
    obtain ⟨start, rest, target, rfl⟩ := quoted.target filled text
    have met : '@' :: rest ++ r.directive.closing :: ';' :: r.back =
        s.directive.text ++ s.back := by simpa using later.symm
    exact plain.inner quoted other second.2 target met

theorem Widest.front_idle {line : Text} {r : Reading} (widest : Widest line r) {here : Text}
    (filled : here ≠ []) (suffix : here <:+ r.front) :
    singleDirective none (here ++ (r.directive.text ++ r.back)) = none := by
  rw [Option.eq_none_iff_forall_ne_some]
  rintro ⟨d, left⟩ found
  obtain ⟨whole, quoted, _⟩ := singleDirective_eq_some.mp found
  obtain ⟨start, split⟩ := suffix
  have reads : Reads line ⟨start, d, left⟩ :=
    ⟨by rw [← whole, ← List.append_assoc, split, ← widest.1.1], quoted⟩
  have earlier : r.front.length ≤ start.length := (widest.2 _ reads).1
  have size := List.length_pos_iff.mpr filled
  rw [← split, List.length_append] at earlier
  omega

theorem Widest.back_unread {line : Text} {r : Reading} (widest : Widest line r) (s : Reading) :
    ¬Reads r.back s := by
  intro reads
  have again : Reads line { s with front := (r.front ++ r.directive.text) ++ s.front } := by
    have later := reads.append (r.front ++ r.directive.text)
    rwa [List.append_assoc, ← widest.1.1] at later
  have later : r.back.length ≤ s.back.length := (widest.2 _ again).2
  have size := List.length_pos_iff.mpr s.directive.text_ne_nil
  rw [reads.1, List.length_append, List.length_append] at later
  omega

section Single

variable {path : Path} {listed : List Path}

def removing (path : Path) (listed : List Path) : Text.Matcher Text := fun before here =>
  (singleDirective before here).map fun (d, left) => (kept path listed d, left)

theorem removing_local : (removing path listed).Local :=
  singleDirective_local.map (kept path listed)

theorem removing_inLine : (removing path listed).InLine :=
  singleDirective_inLine.map (kept path listed)

theorem withoutListed_same {line : Text} (unlisted : ∀ r, Reads line r → r.directive.Single →
    isListed path listed r.directive.target = false) :
    withoutListed path listed line = line := by
  refine Text.replaceBy_same removing_local fun here value left suffix hit => ?_
  obtain ⟨⟨d, _⟩, found, same⟩ := Option.map_eq_some_iff.mp hit
  cases same
  obtain ⟨rfl, quoted, single⟩ := singleDirective_eq_some.mp found
  obtain ⟨start, rfl⟩ := suffix
  rw [kept, unlisted ⟨start, d, left⟩ ⟨rfl, quoted⟩ single]
  rfl

theorem withoutListed_line {line out : Text} (dropped : Dropped path listed line out)
    (agree : ∀ r, Reads line r → isListed path listed r.directive.target = true →
      (r.directive.Single ↔ Widest line r)) : withoutListed path listed line = out := by
  rcases dropped with ⟨r, widest, rfl⟩ | ⟨plain, rfl⟩
  · cases names : isListed path listed r.directive.target with
    | true =>
      have single := (agree r widest.1 names).mpr widest
      have front : withoutListed path listed (r.front ++ (r.directive.text ++ r.back)) =
          r.front ++ withoutListed path listed (r.directive.text ++ r.back) := by
        refine Text.replaceBy_kept removing_local fun here filled suffix => ?_
        rw [removing, widest.front_idle filled suffix, Option.map_none]
      have directive : withoutListed path listed (r.directive.text ++ r.back) =
          kept path listed r.directive ++ withoutListed path listed r.back := by
        refine Text.replaceBy_match removing_local (Option.map_eq_some_iff.mpr ?_)
        exact ⟨_, singleDirective_eq_some.mpr ⟨rfl, widest.1.2, single⟩, rfl⟩
      have back : withoutListed path listed r.back = r.back :=
        withoutListed_same fun s reads => absurd reads (widest.back_unread s)
      rw [widest.1.1, front, directive, back]
    | false =>
      rw [kept, names, if_neg Bool.false_ne_true, ← widest.1.1]
      refine withoutListed_same fun s reads single => ?_
      by_contra listedToo
      have same := widest.unique ((agree s reads (eq_true_of_ne_false listedToo)).mp single)
      exact listedToo (same ▸ names)
  · exact withoutListed_same fun r reads => absurd reads (plain r)

theorem dropListed_eq_withoutListed {content : Text}
    (agree : ∀ line ∈ Text.lines content, ∀ r, Reads line r →
      isListed path listed r.directive.target = true → (r.directive.Single ↔ Widest line r)) :
    dropListed path listed content = withoutListed path listed content := by
  calc dropListed path listed content
    _ = Text.joinLines ((Text.lines content).map (dropListed path listed)) :=
      Text.replaceBy_lines dropping_local dropping_inLine content
    _ = Text.joinLines ((Text.lines content).map (withoutListed path listed)) := by
      refine congrArg Text.joinLines (List.map_congr_left fun line member => Eq.symm ?_)
      exact withoutListed_line (dropListed_line (notMem_of_mem_splitOn member)) (agree line member)
    _ = withoutListed path listed content :=
      (Text.replaceBy_lines removing_local removing_inLine content).symm

end Single

theorem forward_empty (source : Text) : Substitution.forward source {} = source := by
  have kept : Substitution.substituteLine {} = id := by
    funext line
    exact List.takeWhile_append_dropWhile
  rw [Substitution.forward, kept, List.flatMap_id, Text.linesWithEnds_flatten]

/-- The line that imports the variable file. -/
def variableImport (variableFile : Path) : Text := "@import \"" ++ variableFile.text ++ "\";\n"

theorem prepare_empty (path : Path) (content : Text) (listed : List Path) (variableFile : Path) :
    prepare path content listed {} variableFile =
      variableImport variableFile ++ dropListed path listed content :=
  congrArg (variableImport variableFile ++ ·) (forward_empty _)

/-- What is compiled for a sheet when no variable has a literal: the variable file's import, then
the lines of the sheet, each without the directive of its widest reading where that is listed.
Where the listed readings are single directives exactly if they are the widest on their line,
these are all the single directives that are listed. -/
theorem prepare_drops (path : Path) (content : Text) (listed : List Path) (variableFile : Path) :
    (∃ outs, List.Forall₂ (Dropped path listed) (Text.lines content) outs ∧
      prepare path content listed {} variableFile =
        variableImport variableFile ++ Text.joinLines outs) ∧
    ((∀ line ∈ Text.lines content, ∀ r, Reads line r →
        isListed path listed r.directive.target = true → (r.directive.Single ↔ Widest line r)) →
      prepare path content listed {} variableFile =
        variableImport variableFile ++ withoutListed path listed content) := by
  rw [prepare_empty]
  constructor
  · obtain ⟨outs, dropped, joined⟩ := dropListed_lines path listed content
    exact ⟨outs, dropped, by rw [joined]⟩
  · intro agree
    rw [dropListed_eq_withoutListed agree]

/-- A listed import and another on lines of their own. -/
theorem prepare_drops_sample : prepare ⟨"styles/main.less"⟩
    "@import '../a';\n.b \x7b color: red; \x7d @import \"c\";\n" [⟨"a.less"⟩] {} ⟨"v"⟩ =
      "@import \"v\";\n\n.b \x7b color: red; \x7d @import \"c\";\n" := by
  have known := (prepare_drops ⟨"styles/main.less"⟩
    "@import '../a';\n.b \x7b color: red; \x7d @import \"c\";\n" [⟨"a.less"⟩] ⟨"v"⟩).2
    (by decide +kernel)
  exact known.trans (by decide +kernel)

/-- Two imports of listed sheets on one line are read as one that is not listed. -/
theorem prepare_drops_two : ¬∀ (path : Path) (content : Text) (listed : List Path)
    (variableFile : Path), (∀ place ∈ listed, place.normalize = place) →
      prepare path content listed {} variableFile =
        variableImport variableFile ++ withoutListed path listed content := by
  intro same
  have known := same ⟨"main.less"⟩ "@import 'a'; @import 'b';" [⟨"a.less"⟩, ⟨"b.less"⟩] ⟨"v"⟩
    (by decide +kernel)
  revert known
  decide +kernel

end ColorTheme.UserSheet
