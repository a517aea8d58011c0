import ColorTheme.Proofs.Sentinel
import ColorTheme.Proofs.Text.Layout
import ColorTheme.Variable

/-!
Escaping is undone by substitution backward. An escaped text is a layout whose places are the
escaped calls, written as sentinels; restoring writes them as calls again. It takes two things of
the source: no sentinel stands in it, and no escaped call is continued by what follows it. -/
namespace ColorTheme

theorem IsColor.marked {color : Text} (colored : IsColor color) :
    Text.Marked '#' Text.isAsciiAlphanumeric color := by
  obtain ⟨digits, rfl, _, lower⟩ := colored
  have plain : sentinelDigits.all Text.isAsciiAlphanumeric = true := by decide
  exact ⟨digits, rfl, fun c member => List.all_eq_true.mp plain c (lower c member)⟩

namespace EscapedCalls

open Text (Layout)
open Text.Layout

/-- A call that is found is a function with its arguments in brackets, and it is where the text
that it was found in begins. -/
theorem call_covers {before : Option Char} {here left text arguments : Text}
    (found : call before here = some ((text, arguments), left)) :
    here = text ++ left ∧ ∃ name ∈ functions, text = name ++ "(" ++ arguments ++ ")" := by
  unfold call at found
  split at found
  · contradiction
  · obtain ⟨name, member, shape⟩ := List.exists_of_findSome?_eq_some found
    simp only [Option.bind_eq_bind, Option.bind_eq_some_iff, Text.after?_eq_some] at shape
    obtain ⟨inner, whole, rest, closing, same⟩ := shape
    cases Option.some.inj same
    refine ⟨?_, name, member, rfl⟩
    have parts := List.prefix_iff_eq_append.mp
      (List.takeWhile_prefix (fun c => c ≠ '(' && c ≠ ')') (l := inner))
    rw [closing] at parts
    simp only [whole, List.append_assoc, parts]

theorem functions_start :
    ∀ name ∈ functions, name.head?.any Text.isAsciiAlphanumeric = true := by
  decide

theorem call_start {before : Option Char} {here left text arguments : Text}
    (found : call before here = some ((text, arguments), left)) :
    text.head?.any Text.isAsciiAlphanumeric = true := by
  obtain ⟨_, name, member, rfl⟩ := call_covers found
  have start := functions_start name member
  cases name with
  | nil => contradiction
  | cons c name => exact start

/-- The calls to escape as places, everything else as characters. -/
def layout (symbols : Bindings) : Layout (Text × Text) → Layout Text
  | [] => []
  | .inl c :: rest => .inl c :: layout symbols rest
  | .inr (text, arguments) :: rest =>
    if isEscapable symbols arguments then .inr text :: layout symbols rest
    else text.map Sum.inl ++ layout symbols rest

theorem write_layout (symbols : Bindings) (found : Layout (Text × Text)) :
    write id (layout symbols found) = write Prod.fst found := by
  induction found with
  | nil => rfl
  | cons item rest ih =>
    cases item with
    | inl c => simp [layout, ih]
    | inr call =>
      unfold layout
      split <;> simp [ih]

/-- How a call is written: as its sentinel, if it has one. -/
def spelling (calls : EscapedCalls) (text : Text) : Text := (calls.sentinelFor? text).getD text

/-- Calls on record, each once, with sentinels of their own that the allocator knows. -/
structure Recorded (calls : EscapedCalls) (a : Allocator) : Prop where
  sentinels : ∀ entry ∈ calls.entries, IsColor entry.1 ∧ entry.1 ∈ a.issued
  distinctSentinels : (calls.entries.map Prod.fst).Nodup
  distinctCalls : (calls.entries.map Prod.snd).Nodup

theorem sentinelFor?_eq_none {calls : EscapedCalls} {text : Text} :
    calls.sentinelFor? text = none ↔ text ∉ calls.entries.map Prod.snd := by
  simp only [sentinelFor?, Option.map_eq_none_iff, List.find?_eq_none, decide_eq_true_eq,
    List.mem_map, not_exists, not_and]

theorem sentinelFor?_append {calls : EscapedCalls} {text sentinel : Text}
    (known : calls.sentinelFor? text = some sentinel) (more : List (Text × Text)) :
    sentinelFor? ⟨calls.entries ++ more⟩ text = some sentinel := by
  obtain ⟨entry, found, rfl⟩ := Option.map_eq_some_iff.mp known
  simp [sentinelFor?, List.find?_append, found]

theorem sentinelFor?_concat {calls : EscapedCalls} {text : Text}
    (new : calls.sentinelFor? text = none) (sentinel : Text) :
    sentinelFor? ⟨calls.entries ++ [(sentinel, text)]⟩ text = some sentinel := by
  have missing := Option.map_eq_none_iff.mp new
  simp [sentinelFor?, List.find?_append, missing]

theorem Recorded.append {calls : EscapedCalls} {a b : Allocator} (recorded : Recorded calls a)
    {text sentinel : Text} (new : calls.sentinelFor? text = none)
    (issues : a.Issues sentinel b) : Recorded ⟨calls.entries ++ [(sentinel, text)]⟩ b where
  sentinels entry member := by
    rw [issues.recorded]
    rcases List.mem_append.mp member with earlier | last
    · obtain ⟨colored, issued⟩ := recorded.sentinels entry earlier
      exact ⟨colored, List.mem_cons_of_mem sentinel issued⟩
    · rw [List.mem_singleton.mp last]
      exact ⟨issues.colored, List.mem_cons_self⟩
  distinctSentinels := by
    rw [List.map_append, List.nodup_append]
    refine ⟨recorded.distinctSentinels, by simp, ?_⟩
    rintro other known _ last rfl
    obtain rfl : other = sentinel := List.mem_singleton.mp last
    obtain ⟨entry, member, rfl⟩ := List.mem_map.mp known
    exact issues.fresh (recorded.sentinels entry member).2
  distinctCalls := by
    rw [List.map_append, List.nodup_append]
    refine ⟨recorded.distinctCalls, by simp, ?_⟩
    rintro other known _ last rfl
    obtain rfl : other = text := List.mem_singleton.mp last
    exact sentinelFor?_eq_none.mp new known

/-- How pieces are put together, one in front of the others: a character, a call that is kept, one
that has a sentinel, and one that is given a fresh one. -/
inductive Assembly (symbols : Bindings) : EscapedCalls → Allocator → Layout (Text × Text) → Text →
    EscapedCalls → Allocator → Prop
  | nil {calls : EscapedCalls} {a : Allocator} : Assembly symbols calls a [] [] calls a
  | char {calls after : EscapedCalls} {a b : Allocator} {rest : Layout (Text × Text)}
      {written : Text} (c : Char) (later : Assembly symbols calls a rest written after b) :
      Assembly symbols calls a (.inl c :: rest) (c :: written) after b
  | kept {calls after : EscapedCalls} {a b : Allocator} {rest : Layout (Text × Text)}
      {written text arguments : Text} (kept : isEscapable symbols arguments = false)
      (later : Assembly symbols calls a rest written after b) :
      Assembly symbols calls a (.inr (text, arguments) :: rest) (text ++ written) after b
  | known {calls after : EscapedCalls} {a b : Allocator} {rest : Layout (Text × Text)}
      {written text arguments sentinel : Text} (escapable : isEscapable symbols arguments = true)
      (known : calls.sentinelFor? text = some sentinel)
      (later : Assembly symbols calls a rest written after b) :
      Assembly symbols calls a (.inr (text, arguments) :: rest) (sentinel ++ written) after b
  | new {calls after : EscapedCalls} {a between b : Allocator} {rest : Layout (Text × Text)}
      {written text arguments sentinel : Text} (escapable : isEscapable symbols arguments = true)
      (new : calls.sentinelFor? text = none) (issues : a.Issues sentinel between)
      (later : Assembly symbols ⟨calls.entries ++ [(sentinel, text)]⟩ between rest written after b) :
      Assembly symbols calls a (.inr (text, arguments) :: rest) (sentinel ++ written) after b

/-- What assembling some pieces gives, from the calls recorded so far. -/
structure Assembles (symbols : Bindings) (calls : EscapedCalls) (found : Layout (Text × Text))
    (written : Text) (after : EscapedCalls) (b : Allocator) : Prop where
  recorded : Recorded after b
  grown : ∃ more, after.entries = calls.entries ++ more
  complete : ∀ call, .inr call ∈ layout symbols found → call ∈ after.entries.map Prod.snd
  written : written = write after.spelling (layout symbols found)

section Assemble

variable {symbols : Bindings} {calls after : EscapedCalls} {a b : Allocator}
  {rest : Layout (Text × Text)} {text arguments sentinel written : Text}

theorem assemble_chars (text : Text) :
    assemble symbols calls a (text.map .inl ++ rest) =
      (assemble symbols calls a rest).map fun (written, out) => (text ++ written, out) := by
  induction text with
  | nil => simp
  | cons c text ih =>
    rw [List.map_cons, List.cons_append, assemble, ih, Option.map_map]
    rfl

theorem assemble_kept (kept : isEscapable symbols arguments = false) :
    assemble symbols calls a (.inr (text, arguments) :: rest) =
      (assemble symbols calls a rest).map fun (written, out) => (text ++ written, out) := by
  simp [assemble, kept]

theorem assemble_known (sentinel : Text) (escapable : isEscapable symbols arguments = true)
    (known : calls.sentinelFor? text = some sentinel) :
    assemble symbols calls a (.inr (text, arguments) :: rest) =
      (assemble symbols calls a rest).map fun (written, out) => (sentinel ++ written, out) := by
  simp [assemble, escapable, known]

theorem assemble_new (escapable : isEscapable symbols arguments = true)
    (new : calls.sentinelFor? text = none) (issued : a.next = some (sentinel, b)) :
    assemble symbols calls a (.inr (text, arguments) :: rest) =
      (assemble symbols ⟨calls.entries ++ [(sentinel, text)]⟩ b rest).map
        fun (written, out) => (sentinel ++ written, out) := by
  rw [Option.map_eq_bind]
  simp only [assemble, escapable, new, issued]
  rfl

theorem assembly_of_eq {found : Layout (Text × Text)}
    (assembled : assemble symbols calls a found = some (written, after, b)) :
    Assembly symbols calls a found written after b := by
  induction found generalizing calls a written with
  | nil =>
    cases assembled
    exact .nil
  | cons item rest ih =>
    -- The pieces behind the first are assembled, and something is put in front of them.
    have fronted : ∀ {calls : EscapedCalls} {a : Allocator} (front : Text),
        (assemble symbols calls a rest).map (fun (written, out) => (front ++ written, out)) =
          some (written, after, b) →
        ∃ later, written = front ++ later ∧ Assembly symbols calls a rest later after b := by
      intro calls a front put
      obtain ⟨⟨later, out⟩, behind, same⟩ := Option.map_eq_some_iff.mp put
      cases same
      exact ⟨later, rfl, ih behind⟩
    cases item with
    | inl c =>
      obtain ⟨later, rfl, behind⟩ := fronted [c] assembled
      exact .char c behind
    | inr found =>
      obtain ⟨text, arguments⟩ := found
      cases escapable : isEscapable symbols arguments with
      | false =>
        rw [assemble_kept escapable] at assembled
        obtain ⟨later, rfl, behind⟩ := fronted text assembled
        exact .kept escapable behind
      | true =>
        cases known : calls.sentinelFor? text with
        | some sentinel =>
          rw [assemble_known _ escapable known] at assembled
          obtain ⟨later, rfl, behind⟩ := fronted sentinel assembled
          exact .known escapable known behind
        | none =>
          cases issued : a.next with
          | none =>
            simp only [assemble, escapable, known, issued] at assembled
            cases assembled
          | some out =>
            rw [assemble_new escapable known issued] at assembled
            obtain ⟨later, rfl, behind⟩ := fronted out.1 assembled
            exact .new escapable known (Allocator.next_issues issued) behind

theorem layout_kept (kept : isEscapable symbols arguments = false) :
    layout symbols (.inr (text, arguments) :: rest) = text.map Sum.inl ++ layout symbols rest := by
  simp [layout, kept]

theorem layout_escaped (escapable : isEscapable symbols arguments = true) :
    layout symbols (.inr (text, arguments) :: rest) = .inr text :: layout symbols rest := by
  simp [layout, escapable]

theorem Assembles.place (later : Assembles symbols calls rest written after b)
    (escapable : isEscapable symbols arguments = true)
    (known : calls.sentinelFor? text = some sentinel) :
    Assembles symbols calls (.inr (text, arguments) :: rest) (sentinel ++ written) after b := by
  obtain ⟨more, grown⟩ := later.grown
  have kept : after.sentinelFor? text = some sentinel := by
    have stable := sentinelFor?_append known more
    rwa [← grown] at stable
  refine ⟨later.recorded, later.grown, ?_, ?_⟩
  · rw [layout_escaped escapable]
    intro call member
    rcases List.mem_cons.mp member with same | inside
    · cases same
      by_contra missing
      rw [sentinelFor?_eq_none.mpr missing] at kept
      contradiction
    · exact later.complete call inside
  · rw [layout_escaped escapable, write_place, spelling, kept, later.written]
    rfl

theorem Assembly.assembles {found : Layout (Text × Text)}
    (assembly : Assembly symbols calls a found written after b) (recorded : Recorded calls a) :
    Assembles symbols calls found written after b := by
  induction assembly with
  | nil => exact ⟨recorded, ⟨[], by simp⟩, by simp [layout], rfl⟩
  | char c _ ih =>
    have later := ih recorded
    refine ⟨later.recorded, later.grown, fun call member => later.complete call ?_,
      congrArg (c :: ·) later.written⟩
    simpa [layout] using member
  | kept kept _ ih =>
    have later := ih recorded
    refine ⟨later.recorded, later.grown, fun call member => later.complete call ?_, ?_⟩
    · simpa [layout_kept kept] using member
    · rw [layout_kept kept, write_append, write_chars, later.written]
  | known escapable known _ ih => exact (ih recorded).place escapable known
  | @new calls _ _ _ _ _ _ text _ sentinel escapable new issues _ ih =>
    have later := ih (recorded.append new issues)
    have placed := later.place escapable (sentinelFor?_concat new sentinel)
    obtain ⟨more, grown⟩ := placed.grown
    exact ⟨placed.recorded, ⟨(sentinel, text) :: more, grown.trans (by simp)⟩, placed.complete,
      placed.written⟩

/-- The calls to escape among some pieces, as they are met. -/
def met (symbols : Bindings) (found : Layout (Text × Text)) : List Text :=
  ((found.filterMap Sum.getRight?).filter (isEscapable symbols ·.2)).map Prod.fst

/-- Assembling comes to an end if there is a color left for each call to escape. -/
theorem assemble_left (calls : EscapedCalls) {found : Layout (Text × Text)} {count : Nat}
    (left : a.Left ((met symbols found).length + count)) :
    ∃ out, assemble symbols calls a found = some out ∧ out.2.2.Left count := by
  induction found generalizing calls a with
  | nil => exact ⟨([], calls, a), rfl, by simpa [met] using left⟩
  | cons item rest ih =>
    have fronted : ∀ {calls : EscapedCalls} {a : Allocator} (front : Text),
        a.Left ((met symbols rest).length + count) →
        ∃ out, (assemble symbols calls a rest).map (fun (written, out) => (front ++ written, out)) =
          some out ∧ out.2.2.Left count := by
      intro calls a front left
      obtain ⟨out, behind, left⟩ := ih calls left
      exact ⟨(front ++ out.1, out.2), by rw [behind]; rfl, left⟩
    cases item with
    | inl c => exact fronted [c] left
    | inr found =>
      obtain ⟨text, arguments⟩ := found
      cases escapable : isEscapable symbols arguments with
      | false =>
        rw [assemble_kept escapable]
        exact fronted text (by simpa [met, escapable] using left)
      | true =>
        have more : a.Left ((met symbols rest).length + count + 1) := by
          simpa [met, escapable, Nat.add_right_comm] using left
        cases known : calls.sentinelFor? text with
        | some sentinel =>
          rw [assemble_known _ escapable known]
          exact fronted sentinel ⟨more.plentiful, Nat.le_of_succ_le more.bounded⟩
        | none =>
          obtain ⟨sentinel, b, issued, fewer⟩ := more.next
          rw [assemble_new escapable known issued]
          exact fronted sentinel fewer

end Assemble

theorem escape_assembly {source text : Text} {symbols : Bindings} {a b : Allocator}
    {calls : EscapedCalls} (escaped : escape source symbols a = some (text, calls, b)) :
    Assembly symbols {} a (Text.pieces call 0 none source) text calls b :=
  assembly_of_eq escaped

theorem escape_assembles {source text : Text} {symbols : Bindings} {a b : Allocator}
    {calls : EscapedCalls} (escaped : escape source symbols a = some (text, calls, b)) :
    Assembles symbols {} (Text.pieces call 0 none source) text calls b :=
  (assembly_of_eq escaped).assembles ⟨by simp, List.nodup_nil, List.nodup_nil⟩

/-- No call that is escaped is directly followed by an ASCII letter or digit. -/
def setApart (symbols : Bindings) : Layout (Text × Text) → Bool
  | [] => true
  | .inl _ :: rest => setApart symbols rest
  | .inr (_, arguments) :: rest =>
    !(isEscapable symbols arguments && (write Prod.fst rest).head?.any Text.isAsciiAlphanumeric) &&
      setApart symbols rest

theorem layout_apart {symbols : Bindings} {old new : Text → Text} {found : Layout (Text × Text)}
    (start : ∀ text arguments, .inr (text, arguments) ∈ found →
      text.head?.any Text.isAsciiAlphanumeric = true)
    (apart : setApart symbols found = true) :
    Apart Text.isAsciiAlphanumeric old new (layout symbols found) := by
  induction found with
  | nil => exact List.isChain_nil
  | cons item rest ih =>
    have later := ih fun text arguments h => start text arguments (List.mem_cons_of_mem item h)
    cases item with
    | inl c => exact apart_chars [c] (later apart)
    | inr found =>
      obtain ⟨text, arguments⟩ := found
      obtain ⟨ends, apart⟩ := Bool.and_eq_true_iff.mp apart
      cases escapable : isEscapable symbols arguments with
      | false =>
        rw [layout_kept escapable]
        exact apart_chars text (later apart)
      | true =>
        rw [layout_escaped escapable]
        refine List.isChain_cons.mpr ⟨fun next follows _ => ?_, later apart⟩
        rw [escapable, Bool.true_and, Bool.not_eq_true'] at ends
        cases rest with
        | nil => contradiction
        | cons behind rest =>
          cases behind with
          | inl c =>
            cases follows
            exact ends
          | inr other =>
            -- Another call would continue this one by its first letter.
            obtain ⟨second, more⟩ := other
            have letter := start second more (by simp)
            cases second with
            | nil => contradiction
            | cons c second => exact absurd letter (Bool.eq_false_iff.mp ends)

section Restore

variable {calls : EscapedCalls} {a : Allocator}

theorem Recorded.sentinelFor?_of_mem (recorded : Recorded calls a) {entry : Text × Text}
    (member : entry ∈ calls.entries) : calls.sentinelFor? entry.2 = some entry.1 := by
  cases known : calls.sentinelFor? entry.2 with
  | none => exact absurd (List.mem_map_of_mem member) (sentinelFor?_eq_none.mp known)
  | some sentinel =>
    obtain ⟨other, found, rfl⟩ := Option.map_eq_some_iff.mp known
    have same : other.2 = entry.2 := by simpa using List.find?_some found
    rw [List.inj_on_of_nodup_map recorded.distinctCalls (List.mem_of_find?_eq_some found) member same]

theorem Recorded.spelling_of_mem (recorded : Recorded calls a) {entry : Text × Text}
    (member : entry ∈ calls.entries) : calls.spelling entry.2 = entry.1 := by
  simp [spelling, recorded.sentinelFor?_of_mem member]

theorem restoreCalls_eq (recorded : Recorded calls a) (css : Text) :
    Substitution.restoreCalls calls css = (calls.entries.map Prod.snd).foldl (fun css call =>
      Text.replaceBounded (calls.spelling call) call Text.isAsciiAlphanumeric css) css := by
  rw [List.foldl_map]
  refine List.foldl_ext _ _ css fun css entry member => ?_
  rw [recorded.spelling_of_mem member]

theorem restoreCalls_write (recorded : Recorded calls a) {l : Layout Text}
    (complete : ∀ call, .inr call ∈ l → call ∈ calls.entries.map Prod.snd)
    (apart : Apart Text.isAsciiAlphanumeric calls.spelling id l)
    (fresh : ∀ entry ∈ calls.entries, ¬ entry.1 <:+: write id l) :
    Substitution.restoreCalls calls (write calls.spelling l) = write id l := by
  have marked : ∀ call ∈ calls.entries.map Prod.snd,
      Text.Marked '#' Text.isAsciiAlphanumeric (calls.spelling call) := by
    intro call known
    obtain ⟨entry, member, rfl⟩ := List.mem_map.mp known
    rw [recorded.spelling_of_mem member]
    exact (recorded.sentinels entry member).1.marked
  have settles : ∀ call ∈ calls.entries.map Prod.snd,
      Settles Text.isAsciiAlphanumeric calls.spelling id l call := by
    intro call known
    obtain ⟨entry, member, rfl⟩ := List.mem_map.mp known
    refine settles_of_absent (by decide) (marked _ known)
      (fun call h => marked call (complete call h)) ?_ apart ?_
    · intro call place other same
      obtain ⟨another, listed, rfl⟩ := List.mem_map.mp (complete call place)
      rw [recorded.spelling_of_mem listed, recorded.spelling_of_mem member] at same
      exact other (congrArg Prod.snd
        (List.inj_on_of_nodup_map recorded.distinctSentinels listed member same))
    · rw [recorded.spelling_of_mem member]
      exact fresh entry member
  rw [restoreCalls_eq recorded]
  refine (foldl_settles recorded.distinctCalls settles (fun _ _ => .inl rfl) fun _ _ => rfl).trans ?_
  exact write_congr fun call place => by simp [complete call place]

end Restore

/-- Escaping loses nothing: the escaped text comes back as the source does. -/
theorem backward_escape {source text : Text} {symbols : Bindings} {a b : Allocator}
    {calls : EscapedCalls} (escaped : escape source symbols a = some (text, calls, b))
    (fresh : ∀ entry ∈ calls.entries, ¬ entry.1 <:+: source)
    (apart : setApart symbols (Text.pieces call 0 none source) = true) (compiled : Bindings) :
    Substitution.backward text calls compiled = Substitution.backward source {} compiled := by
  have assembled := escape_assembles escaped
  have whole : write id (layout symbols (Text.pieces call 0 none source)) = source := by
    rw [write_layout]
    refine write_pieces 0 none source fun {_ _ value _} found => ?_
    refine ⟨fun empty => ?_, (call_covers found).1⟩
    have start := call_start found
    rw [show value.1 = [] from empty] at start
    contradiction
  have start : ∀ text arguments, .inr (text, arguments) ∈ Text.pieces call 0 none source →
      text.head?.any Text.isAsciiAlphanumeric = true := by
    intro text arguments member
    obtain ⟨_, _, _, found⟩ := Text.matched_of_mem_pieces member
    exact call_start found
  have restored := restoreCalls_write assembled.recorded assembled.complete
    (layout_apart start apart) (by rwa [whole])
  rw [whole, ← assembled.written] at restored
  simp only [Substitution.backward, restored]
  rfl

/-- Two calls, one of them twice, and a function that is no color function. -/
theorem backward_escape_shared :
    let source : Text := "a: fade(@b, 1%) fade(@b, 2%),fade(@b, 1%); c: calc(@b)"
    let symbols := Bindings.parse "@b: #fff;"
    let text : Text := "a: #000001 #000002,#000001; c: calc(@b)"
    let calls : EscapedCalls := ⟨[("#000001", "fade(@b, 1%)"), ("#000002", "fade(@b, 2%)")]⟩
    (∃ b, escape source symbols { draws := Draws.ofList #[256, 512] } = some (text, calls, b)) ∧
      (∀ entry ∈ calls.entries, ¬ entry.1 <:+: source) ∧
      setApart symbols (Text.pieces call 0 none source) = true ∧
      Substitution.backward text calls {} = Substitution.backward source {} {} := by
  intro source symbols text calls
  have fresh : ∀ entry ∈ calls.entries, ¬ entry.1 <:+: source := by decide +kernel
  have apart : setApart symbols (Text.pieces call 0 none source) = true := by decide +kernel
  have found : Text.pieces call 0 none source =
      ("a: " : Text).map .inl ++ .inr ("fade(@b, 1%)", "@b, 1%") ::
        ((" " : Text).map .inl ++ .inr ("fade(@b, 2%)", "@b, 2%") ::
          (("," : Text).map .inl ++ .inr ("fade(@b, 1%)", "@b, 1%") ::
            (("; c: calc(@b)" : Text).map .inl ++ []))) := by
    decide +kernel
  have escapable : ∀ arguments ∈ [("@b, 1%" : Text), "@b, 2%"],
      isEscapable symbols arguments = true := by
    decide +kernel
  have escaped : ∃ b,
      escape source symbols { draws := Draws.ofList #[256, 512] } = some (text, calls, b) := by
    rw [escape, found, assemble_chars,
      assemble_new (escapable _ (by decide)) rfl
        (Allocator.next_first "#000001" (by decide +kernel)), assemble_chars,
      assemble_new (escapable _ (by decide)) (by decide +kernel)
        (Allocator.next_first "#000002" (by decide +kernel)), assemble_chars,
      assemble_known "#000001" (escapable _ (by decide)) (by decide +kernel),
      assemble_chars, assemble]
    exact ⟨_, rfl⟩
  obtain ⟨b, escaped⟩ := escaped
  exact ⟨⟨b, escaped⟩, fresh, apart, backward_escape escaped fresh apart {}⟩

end EscapedCalls
end ColorTheme
