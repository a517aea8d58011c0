import ColorTheme.Proofs.Substitution

/-!
Forward substitution as one pass. The literals are written in place of all bound names at once, so
neither the order of the bindings nor a second pass makes a difference. -/
namespace ColorTheme

namespace Text

theorem linesWithEnds_line {line : Text} (single : '\n' ∉ line) (rest : Text) :
    linesWithEnds (line ++ '\n' :: rest) = (line ++ ['\n']) :: linesWithEnds rest := by
  induction line with
  | nil => simp [linesWithEnds]
  | cons c line ih =>
    obtain ⟨other, later⟩ := List.ne_and_not_mem_of_not_mem_cons single
    simp [linesWithEnds, Ne.symm other, ih later]

theorem linesWithEnds_last {line : Text} (single : '\n' ∉ line) (filled : line ≠ []) :
    linesWithEnds line = [line] := by
  induction line with
  | nil => contradiction
  | cons c line ih =>
    obtain ⟨other, later⟩ := List.ne_and_not_mem_of_not_mem_cons single
    cases line with
    | nil => simp [linesWithEnds, Ne.symm other]
    | cons d line =>
      have known := ih later (List.cons_ne_nil d line)
      rw [linesWithEnds, if_neg (Ne.symm other), known]

end Text

namespace Substitution

open Text (Layout)
open Text.Layout

/-- One pass over a text, in which each word that is a bound name becomes its value. -/
def substituteWords (compiled : Bindings) : Text → Text :=
  Text.replaceBy fun before here =>
    (Text.word '@' Text.isNameChar before here).map fun (name, left) =>
      (valueOf compiled name, left)

theorem valueOf_unbound {compiled : Bindings} {name : Text} (unbound : name ∉ compiled.names) :
    valueOf compiled name = name := by
  cases found : compiled.get? name with
  | none => simp [valueOf, found]
  | some value => exact absurd (List.mem_map_of_mem (Bindings.mem_of_get? found)) unbound

theorem substituteWords_eq (compiled : Bindings) (text : Text) : substituteWords compiled text =
    write (valueOf compiled) (Text.pieces (mention compiled.names) 0 none text) := by
  rw [mention_eq, Text.write_listed (by decide) fun name unbound => valueOf_unbound unbound]
  rfl

theorem mention_inLine (names : List Text) : (mention names).InLine := by
  rw [mention_eq]
  exact Text.wordOf_inLine (by decide) (by decide)

theorem substituteWords_line (compiled : Bindings) {line : Text} (single : '\n' ∉ line)
    (rest : Text) : substituteWords compiled (line ++ '\n' :: rest) =
      substituteWords compiled line ++ '\n' :: substituteWords compiled rest := by
  simp [substituteWords_eq, Text.pieces_line mention_local (mention_inLine _) single]

/-- No bound name is mentioned. -/
def Quiet (names : List Text) (text : Text) : Prop :=
  ∀ name, .inr name ∉ Text.pieces (mention names) 0 none text

theorem Quiet.pieces {names : List Text} {text : Text} (quiet : Quiet names text) :
    Text.pieces (mention names) 0 none text = text.map .inl := by
  have kept := eq_chars_write id quiet
  rwa [write_mentions] at kept

theorem Quiet.substituteWords {compiled : Bindings} {text : Text}
    (quiet : Quiet compiled.names text) : substituteWords compiled text = text := by
  rw [substituteWords_eq, quiet.pieces, write_chars]

theorem quiet_cons {names : List Text} {c : Char} {text : Text} : Quiet names (c :: text) ↔
    mention names none (c :: text) = none ∧ Quiet names text := by
  constructor
  · intro quiet
    have missed : mention names none (c :: text) = none := by
      rw [Option.eq_none_iff_forall_ne_some]
      rintro ⟨name, left⟩ found
      refine quiet name ?_
      rw [Text.pieces_match mention_local found]
      exact List.mem_cons_self
    refine ⟨missed, fun name place => quiet name ?_⟩
    rw [Text.pieces_char mention_local missed]
    exact List.mem_cons_of_mem _ place
  · rintro ⟨missed, quiet⟩ name place
    rw [Text.pieces_char mention_local missed] at place
    exact quiet name ((List.mem_cons.mp place).resolve_left nofun)

theorem Quiet.suffix {names : List Text} {text rest : Text} (quiet : Quiet names text)
    (suffix : rest <:+ text) : Quiet names rest := by
  induction text with
  | nil => rwa [List.suffix_nil.mp suffix]
  | cons c text ih =>
    rcases List.suffix_cons_iff.mp suffix with rfl | inside
    · exact quiet
    · exact ih (quiet_cons.mp quiet).2 inside

theorem quiet_line {names : List Text} {line : Text} (single : '\n' ∉ line) {rest : Text} :
    Quiet names (line ++ '\n' :: rest) ↔ Quiet names line ∧ Quiet names rest := by
  simp only [Quiet, Text.pieces_line mention_local (mention_inLine names) single, List.mem_append,
    List.mem_cons, not_or, forall_and]
  simp

section Forward

variable {compiled : Bindings} (able : Mentionable compiled)

include able

theorem substituteLine_words (line : Text) : substituteLine compiled line =
    line.takeWhile (· ≠ ':') ++ substituteWords compiled (line.dropWhile (· ≠ ':')) := by
  rw [substituteLine_eq able, lineLayout, write_append, write_chars, substituteWords_eq]

/-- What one pass leaves mentions no bound name. -/
theorem quiet_substituteWords (text : Text) :
    Quiet compiled.names (substituteWords compiled text) := by
  have opens : ∀ name ∈ compiled.names,
      Closes Text.isNameChar id (valueOf compiled) (.inr name) :=
    fun name bound => able.closes (fun _ on => on) bound
  rw [substituteWords_eq]
  induction text using Text.search_induction (mention_local : (mention compiled.names).Local) with
  | nil => exact nofun
  | char c rest missed ih =>
    rw [Text.pieces_char mention_local missed, write_char]
    refine quiet_cons.mpr ⟨?_, ih⟩
    -- The run behind a sign is the same before and after the pass.
    have same := takeWhile_write
      (fun p (place : .inr p ∈ Text.pieces (mention compiled.names) 0 none rest) =>
        opens p (mem_names_of_pieces place)) fun _ _ => .inr rfl
    have run := same.trans (congrArg _ (write_mentions rest))
    by_cases sign : c = '@'
    · subst sign
      simpa [mention, run] using missed
    · simp [mention, sign]
  | found here name left found ih =>
    rw [Text.pieces_match mention_local found, write_place]
    obtain ⟨tail, value, clean⟩ :=
      able.value ((mention_eq_some able.names).mp found).1
    intro other place
    rw [value, Text.pieces_append mention_local] at place
    · rcases List.mem_append.mp place with chars | later
      · simp at chars
      · exact ih other later
    · intro here filled suffix
      obtain ⟨c, rest, rfl⟩ := List.exists_cons_of_ne_nil filled
      have other : c ≠ '@' := by
        rintro rfl
        rcases List.mem_cons.mp (suffix.subset List.mem_cons_self) with same | inside
        · contradiction
        · exact clean inside
      simp [mention, other]

theorem substituteLine_plain {line : Text} (plain : ':' ∉ line) :
    substituteLine compiled line = line := by
  have inner : ∀ c ∈ line, decide (c ≠ ':') = true :=
    fun c member => decide_eq_true fun same => plain (same ▸ member)
  rw [substituteLine_words able, List.takeWhile_eq_self_iff.mpr inner,
    List.dropWhile_eq_nil_iff.mpr inner]
  exact List.append_nil line

theorem substituteLine_colon {front : Text} (plain : ':' ∉ front) (back : Text) :
    substituteLine compiled (front ++ ':' :: back) =
      front ++ substituteWords compiled (':' :: back) := by
  have inner : ∀ c ∈ front, decide (c ≠ ':') = true :=
    fun c member => decide_eq_true fun same => plain (same ▸ member)
  have stops : (':' :: back).head?.any (fun c => decide (c ≠ ':')) = false := by simp
  obtain ⟨head, tail⟩ := Text.run_append inner stops
  rw [substituteLine_words able, head, tail]

theorem substituteLine_feed {line : Text} (single : '\n' ∉ line) :
    substituteLine compiled (line ++ ['\n']) = substituteLine compiled line ++ ['\n'] := by
  by_cases colon : ':' ∈ line
  · obtain ⟨front, back, rfl, plain⟩ := List.eq_append_cons_of_mem colon
    have behind : '\n' ∉ ':' :: back := fun feed => single (List.mem_append_right front feed)
    have feed := substituteWords_line compiled behind []
    rw [List.append_assoc, List.cons_append, substituteLine_colon able plain,
      substituteLine_colon able plain, ← List.cons_append, feed, List.append_assoc]
    rfl
  · have still : ':' ∉ line ++ ['\n'] := by simp [colon]
    rw [substituteLine_plain able colon, substituteLine_plain able still]

theorem forward_last {line : Text} (single : '\n' ∉ line) :
    forward line compiled = substituteLine compiled line := by
  by_cases empty : line = []
  · subst empty
    rw [substituteLine_words able]
    rfl
  · rw [forward, Text.linesWithEnds_last single empty, List.flatMap_singleton]

theorem forward_feed {line : Text} (single : '\n' ∉ line) (rest : Text) :
    forward (line ++ '\n' :: rest) compiled =
      substituteLine compiled line ++ '\n' :: forward rest compiled := by
  rw [forward, Text.linesWithEnds_line single, List.flatMap_cons, substituteLine_feed able single,
    List.append_assoc]
  rfl

/-- A text without colons and then one without mentions are left alone, whatever follows them on
further lines. -/
theorem forward_quiet {head text : Text} (single : '\n' ∉ head) (plain : ':' ∉ head)
    (quiet : Quiet compiled.names text) : forward (head ++ text) compiled = head ++ text ∧
      ∀ rest, forward (head ++ text ++ '\n' :: rest) compiled =
        head ++ text ++ '\n' :: forward rest compiled := by
  have unchanged : ∀ {head line}, ':' ∉ head → Quiet compiled.names line →
      substituteLine compiled (head ++ line) = head ++ line := by
    intro head line plain quiet
    have inner : ∀ c ∈ head, decide (c ≠ ':') = true :=
      fun c member => decide_eq_true fun same => plain (same ▸ member)
    have tail := (quiet.suffix (List.dropWhile_suffix (· ≠ ':'))).substituteWords
    rw [substituteLine_words able, List.dropWhile_append_of_pos inner, tail,
      ← List.dropWhile_append_of_pos inner, List.takeWhile_append_dropWhile]
  induction text using Text.lines_induction generalizing head with
  | last line ends =>
    have whole : '\n' ∉ head ++ line := by simp [single, ends]
    have kept := unchanged plain quiet
    exact ⟨by rw [forward_last able whole, kept], fun rest => by rw [forward_feed able whole, kept]⟩
  | feed line rest ends ih =>
    obtain ⟨first, later⟩ := (quiet_line ends).mp quiet
    have whole : '\n' ∉ head ++ line := by simp [single, ends]
    have kept := unchanged plain first
    obtain ⟨alone, followed⟩ := ih List.not_mem_nil List.not_mem_nil later
    constructor
    · rw [← List.append_assoc, forward_feed able whole, kept]
      exact congrArg _ (congrArg _ alone)
    · intro rest
      have followed := followed rest
      simp only [List.nil_append] at followed
      rw [← List.append_assoc head, List.append_assoc (head ++ line), List.cons_append,
        forward_feed able whole, kept, followed]
      simp

theorem forward_forward (source : Text) :
    forward (forward source compiled) compiled = forward source compiled := by
  have settled : ∀ {line}, '\n' ∉ line → forward (substituteLine compiled line) compiled =
      substituteLine compiled line ∧ ∀ rest,
        forward (substituteLine compiled line ++ '\n' :: rest) compiled =
          substituteLine compiled line ++ '\n' :: forward rest compiled := by
    intro line single
    rw [substituteLine_words able]
    refine forward_quiet able ?_ ?_ (quiet_substituteWords able _)
    · exact fun feed => single ((List.takeWhile_prefix _).subset feed)
    · exact fun colon => by simpa using List.mem_takeWhile_imp colon
  induction source using Text.lines_induction with
  | last line single => rw [forward_last able single, (settled single).1]
  | feed line rest single ih => rw [forward_feed able single, (settled single).2, ih]

theorem Mentionable.perm {other : Bindings} (same : other.entries.Perm compiled.entries) :
    Mentionable other where
  names name bound := able.names name ((same.map Prod.fst).mem_iff.mp bound)
  distinct := (same.map Prod.fst).nodup_iff.mpr able.distinct
  values entry member := able.values entry (same.mem_iff.mp member)

end Forward

/-- Forward substitution is one pass over the words behind the first colon of each line; it does
not depend on the order of the bindings, and a second time it changes nothing. -/
theorem forward_simultaneous (source : Text) (compiled : Bindings) (able : Mentionable compiled) :
    forward source compiled = (Text.linesWithEnds source).flatMap (fun line =>
      line.takeWhile (· ≠ ':') ++ substituteWords compiled (line.dropWhile (· ≠ ':'))) ∧
    (∀ other : Bindings, other.entries.Perm compiled.entries →
      forward source other = forward source compiled) ∧
    forward (forward source compiled) compiled = forward source compiled := by
  refine ⟨?_, fun other same => ?_, forward_forward able source⟩
  · exact List.flatMap_congr fun line _ => substituteLine_words able line
  · refine List.flatMap_congr fun line _ => ?_
    have values : valueOf other = valueOf compiled := by
      funext name
      rw [valueOf, valueOf, Bindings.get?_perm same able.distinct]
    rw [substituteLine_words able, substituteLine_words (able.perm same), substituteWords,
      substituteWords, values]

/-- Names that begin others, a value with a colon and a line feed, and a lone sign. -/
theorem forward_simultaneous_beginnings :
    let source : Text := "@a b: @a-b,@a,@ab@;\n@a: @a"
    let compiled : Bindings := ⟨[("@a", "#abc"), ("@a-b", "#d\n:e")]⟩
    let swapped : Bindings := ⟨[("@a-b", "#d\n:e"), ("@a", "#abc")]⟩
    Mentionable compiled ∧ swapped.entries.Perm compiled.entries ∧
      forward source compiled = ("@a b: #d\n:e,#abc,@ab@;\n@a: #abc" : Text) ∧
      forward source swapped = forward source compiled ∧
      forward (forward source compiled) compiled = forward source compiled := by
  intro source compiled swapped
  have able : Mentionable compiled := {
    names := by decide +kernel
    distinct := by decide +kernel
    values := by
      intro entry member
      simp only [compiled, List.mem_cons, List.not_mem_nil, or_false] at member
      rcases member with rfl | rfl
      · exact ⟨_, rfl, by decide⟩
      · exact ⟨_, rfl, by decide⟩ }
  have same : swapped.entries.Perm compiled.entries := List.Perm.swap _ _ []
  obtain ⟨_, order, again⟩ := forward_simultaneous source compiled able
  exact ⟨able, same, by decide +kernel, order swapped same, again⟩

end Substitution
end ColorTheme
