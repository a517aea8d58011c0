import ColorTheme.Proofs.Allocation

/-!
Where the sentinels of a generation can meet the text that they are put into. An allocator looks at
no text, so a color that the stream draws may stand in the library already. No other sentinel can
but the fixed one, and where none does, nothing that the library wrote is restored. -/
namespace ColorTheme

namespace Allocator

/-- Each issued color was drawn. -/
structure Tracked (draws : Draws) (a : Allocator) : Prop where
  stream : a.draws = draws
  drawn : ∀ color ∈ a.issued, ∃ n < a.drawn, colorOfDraw? (draws n) = some color

theorem tracked_start (draws : Draws) : Tracked draws { draws } := ⟨rfl, nofun⟩

theorem Issues.tracked {draws : Draws} {a b : Allocator} {color : Text} (issues : a.Issues color b)
    (tracked : Tracked draws a) : Tracked draws b := by
  obtain ⟨n, start, before, known⟩ := issues.drawn
  constructor
  · exact issues.stream.trans tracked.stream
  · rw [issues.recorded, List.forall_mem_cons]
    refine ⟨⟨n, before, tracked.stream ▸ known⟩, fun earlier member => ?_⟩
    obtain ⟨k, taken, known⟩ := tracked.drawn earlier member
    exact ⟨k, by omega, known⟩

end Allocator

open Allocator (Tracked)

theorem SentinelMap.assign_tracked {draws : Draws} {names : List Text} {m : SentinelMap}
    {b : Allocator} (assigned : assign names { draws } = some (m, b)) : Tracked draws b :=
  assignFrom_induction (P := fun _ a => Tracked draws a) assigned (Allocator.tracked_start draws)
    (fun _ _ _ _ tracked => tracked) fun _ _ _ _ _ _ _ _ issues tracked => issues.tracked tracked

theorem EscapedCalls.Assembly.tracked {draws : Draws} {symbols : Bindings}
    {calls after : EscapedCalls} {a b : Allocator} {found : Text.Layout (Text × Text)}
    {written : Text} (assembly : Assembly symbols calls a found written after b)
    (tracked : Tracked draws a) : Tracked draws b := by
  induction assembly with
  | nil => exact tracked
  | char c _ ih => exact ih tracked
  | kept _ _ ih => exact ih tracked
  | known _ _ _ ih => exact ih tracked
  | new _ _ issues _ ih => exact ih (issues.tracked tracked)

theorem Text.replaceBounded_absent {mark : Char} {continues : Char → Bool}
    {needle replacement text : Text} (idle : continues mark = false)
    (marked : Marked mark continues needle) (absent : ¬ needle <:+: text) :
    replaceBounded needle replacement continues text = text := by
  have free : ∀ v, v ≠ [] → v <:+ text → ¬ Stands needle continues (v ++ []) := by
    intro v _ suffix stands
    obtain ⟨rest, whole, _⟩ := stands
    rw [List.append_nil] at whole
    exact absent (List.IsInfix.trans ⟨[], rest, whole.symm⟩ suffix.isInfix)
  have kept : replaceBounded needle replacement continues (text ++ []) =
      text ++ replaceBounded needle replacement continues [] :=
    replaceBounded_stretch idle marked [] free
  rw [List.append_nil] at kept
  exact kept.trans (List.append_nil text)

namespace Substitution

theorem backward_absent {css : Text} {calls : EscapedCalls} {compiled : Bindings}
    (sentinels : ∀ entry ∈ calls.entries, IsColor entry.1 ∧ ¬ entry.1 <:+: css)
    (literals : ∀ entry ∈ compiled.entries, IsColor entry.2 ∧ ¬ entry.2 <:+: css) :
    backward css calls compiled = backward css {} {} := by
  have restored : restoreCalls calls css = css := by
    refine List.foldlRecOn (motive := fun text => text = css) calls.entries _ rfl ?_
    rintro _ rfl entry member
    obtain ⟨colored, absent⟩ := sentinels entry member
    exact Text.replaceBounded_absent (by decide) colored.marked absent
  have symbols : restoreSymbols compiled css = css := by
    refine List.foldlRecOn (motive := fun text => text = css) compiled.entries _ rfl ?_
    rintro _ rfl entry member
    obtain ⟨colored, absent⟩ := literals entry member
    exact Text.replaceBounded_absent (by decide) colored.marked absent
  simp only [backward, restored, symbols]
  rfl

end Substitution

section Generation

variable {draws : Draws} {selected : List Text} {library text : Text} {symbols : Bindings}
  {m : SentinelMap} {calls : EscapedCalls} {a b : Allocator}
  (assigned : SentinelMap.assign selected { draws } = some (m, a))
  (escaped : EscapedCalls.escape library symbols a = some (text, calls, b))

include assigned escaped

theorem sentinels_colored :
    ∀ sentinel ∈ m.entries.map Prod.snd ++ calls.entries.map Prod.fst, IsColor sentinel := by
  intro sentinel member
  rcases List.mem_append.mp member with ofMap | ofCall
  · obtain ⟨entry, known, rfl⟩ := List.mem_map.mp ofMap
    exact ((SentinelMap.assign_assigned assigned).given entry known).2
  · obtain ⟨entry, known, rfl⟩ := List.mem_map.mp ofCall
    have recorded := (EscapedCalls.escape_assembles escaped).recorded
    exact (recorded.sentinels entry known).1

/-- Every sentinel of a generation but the fixed one was issued in it. -/
theorem sentinels_issued :
    ∀ sentinel ∈ m.entries.map Prod.snd ++ calls.entries.map Prod.fst,
      (sentinel = primarySentinel ∧ primaryVariable ∈ selected) ∨ sentinel ∈ b.issued := by
  intro sentinel member
  have given := SentinelMap.assign_given assigned (Allocator.sound_start draws)
  have noted := EscapedCalls.escape_noted escaped given.sound
  rcases List.mem_append.mp member with ofMap | ofCall
  · obtain ⟨entry, known, rfl⟩ := List.mem_map.mp ofMap
    rcases given.mem_issued known with ⟨primary, fixed⟩ | ⟨_, taken⟩
    · have listed := ((SentinelMap.assign_assigned assigned).given entry known).1
      exact .inl ⟨fixed, primary ▸ listed⟩
    · right
      rw [noted.recorded, given.recorded]
      exact List.mem_append_right _ (List.mem_append_left _ (List.mem_reverse.mpr taken))
  · right
    rw [noted.recorded]
    exact List.mem_append_left _ (List.mem_reverse.mpr ofCall)

theorem issued_drawn : ∀ color ∈ b.issued, color ∉ reservedColors ∧
    ∃ n < b.drawn, Allocator.colorOfDraw? (draws n) = some color := by
  intro color member
  have given := SentinelMap.assign_given assigned (Allocator.sound_start draws)
  have noted := EscapedCalls.escape_noted escaped given.sound
  have tracked : Tracked draws b :=
    (EscapedCalls.escape_assembly escaped).tracked (SentinelMap.assign_tracked assigned)
  exact ⟨(noted.sound.colored color member).2, tracked.drawn color member⟩

end Generation

/-- A sentinel of a generation is the fixed one of the primary variable, or a color that is not
reserved and that the stream drew meanwhile; so no other color of the library can be one. Where the
library holds none, it is restored as if there were none. -/
theorem sentinels_drawn {draws : Draws} {selected : List Text} {library text : Text}
    {symbols : Bindings} {m : SentinelMap} {calls : EscapedCalls} {a b : Allocator}
    (assigned : SentinelMap.assign selected { draws } = some (m, a))
    (escaped : EscapedCalls.escape library symbols a = some (text, calls, b)) :
    let sentinels := m.entries.map Prod.snd ++ calls.entries.map Prod.fst
    (∀ sentinel ∈ sentinels, (sentinel = primarySentinel ∧ primaryVariable ∈ selected) ∨
        sentinel ∉ reservedColors ∧
          ∃ n < b.drawn, Allocator.colorOfDraw? (draws n) = some sentinel) ∧
      ((∀ sentinel ∈ sentinels, ¬ sentinel <:+: library) →
        ∀ compiled : Bindings, (∀ entry ∈ compiled.entries, entry.2 ∈ sentinels) →
          Substitution.backward library calls compiled = Substitution.backward library {} {}) := by
  intro sentinels
  have colored := sentinels_colored assigned escaped
  constructor
  · intro sentinel member
    rcases sentinels_issued assigned escaped sentinel member with fixed | taken
    · exact .inl fixed
    · exact .inr (issued_drawn assigned escaped sentinel taken)
  · intro apart compiled literals
    apply Substitution.backward_absent
    · intro entry known
      have member : entry.1 ∈ sentinels := List.mem_append_right _ (List.mem_map_of_mem known)
      exact ⟨colored _ member, apart _ member⟩
    · intro entry known
      exact ⟨colored _ (literals entry known), apart _ (literals entry known)⟩

/-- A library with a color of its own and a call. -/
def ownColor : Text := "a: #abcdef; b: fade(@c, 10%);"

theorem escape_ownColor {a b : Allocator} {sentinel : Text} (issued : a.next = some (sentinel, b)) :
    EscapedCalls.escape ownColor (Bindings.parse "@c: #fff;") a =
      some ("a: #abcdef; b: " ++ (sentinel ++ ";"), ⟨[(sentinel, "fade(@c, 10%)")]⟩, b) := by
  have found : Text.pieces EscapedCalls.call 0 none ownColor =
      ("a: #abcdef; b: " : Text).map .inl ++
        .inr ("fade(@c, 10%)", "@c, 10%") :: ((";" : Text).map .inl ++ []) := by
    decide +kernel
  rw [EscapedCalls.escape, found, EscapedCalls.assemble_chars,
    EscapedCalls.assemble_new (by decide +kernel) rfl issued, EscapedCalls.assemble_chars]
  rfl

/-- A stream that does not meet the color of the library. -/
theorem sentinels_drawn_apart :
    let m := SentinelMap.give {} "@c" "#000001"
    let calls : EscapedCalls := ⟨[("#000002", "fade(@c, 10%)")]⟩
    ∃ a text b, SentinelMap.assign ["@c"] { draws := Draws.ofList #[256, 512] } = some (m, a) ∧
      EscapedCalls.escape ownColor (Bindings.parse "@c: #fff;") a = some (text, calls, b) ∧
      Substitution.backward ownColor calls ⟨m.entries⟩ =
        Substitution.backward ownColor {} {} := by
  intro m calls
  let start : Allocator := { draws := Draws.ofList #[256, 512] }
  let between : Allocator := { start with drawn := 1, issued := ["#000001"] }
  have first : start.next = some (_, between) := Allocator.next_first "#000001" (by decide +kernel)
  have second := Allocator.next_first (a := between) "#000002" (by decide +kernel)
  have assigned : SentinelMap.assign ["@c"] start = some (m, between) :=
    SentinelMap.assignFrom_new rfl (by decide) first []
  have escaped := escape_ownColor second
  refine ⟨_, _, _, assigned, escaped, (sentinels_drawn assigned escaped).2 ?_ _ ?_⟩
  · decide +kernel
  · decide +kernel

/-- A sentinel may stand in the library already, and then a color that the library wrote is turned
into the call that the sentinel stands for. -/
theorem sentinels_drawn_met :
    (¬ ∀ (draws : Draws) (selected : List Text) (library text : Text) (symbols : Bindings)
        (m : SentinelMap) (calls : EscapedCalls) (a b : Allocator),
      SentinelMap.assign selected { draws } = some (m, a) →
        EscapedCalls.escape library symbols a = some (text, calls, b) →
          ∀ sentinel ∈ m.entries.map Prod.snd ++ calls.entries.map Prod.fst,
            ¬ sentinel <:+: library) ∧
    ∃ text calls b,
      EscapedCalls.escape ownColor (Bindings.parse "@c: #fff;")
          { draws := Draws.ofList #[0xabcdef00] } = some (text, calls, b) ∧
        Substitution.backward text calls {} = ("a: fade(@c, 10%); b: fade(@c, 10%);" : Text) := by
  have drawn := Allocator.next_first (a := { draws := Draws.ofList #[0xabcdef00] }) "#abcdef"
    (by decide +kernel)
  have escaped := escape_ownColor drawn
  constructor
  · intro fresh
    have absent := fresh _ [] _ _ _ {} _ _ _ rfl escaped "#abcdef" (by decide +kernel)
    revert absent
    decide +kernel
  · exact ⟨_, _, _, escaped, by decide +kernel⟩

end ColorTheme
