import ColorTheme.Proofs.Overlay
import ColorTheme.Proofs.Probe

/-!
What the scan of a compiled sheet finds. Blocks are met from left to right and do not overlap; those
that can be variables are bound one after the other, so a name keeps the place of its first block
and has the value of its last one. -/
namespace ColorTheme

namespace Bindings

/-- Each name once, in the order in which the names were first bound, with the value that was bound
to it last. -/
structure Collects (pairs : List (Text × Text)) (b : Bindings) : Prop where
  distinct : b.names.Nodup
  ordered : b.names = (pairs.map Prod.fst).eraseDups
  latest : ∀ entry ∈ b.entries, last? pairs entry.1 = some entry.2

variable {b : Bindings} {pairs : List (Text × Text)}

theorem collects_nil : Collects [] {} where
  distinct := List.nodup_nil
  ordered := rfl
  latest := nofun

theorem Collects.insert (collects : Collects pairs b) (name value : Text) :
    Collects (pairs ++ [(name, value)]) (b.insert name value) where
  distinct := nodup_put collects.distinct
  ordered := by
    have listed : name ∈ b.names ↔ name ∈ pairs.map Prod.fst := by
      rw [collects.ordered, List.mem_eraseDups]
    rw [List.map_append, List.map_singleton]
    by_cases known : name ∈ b.names
    · have kept : (b.insert name value).names = b.names := names_put_known known
      rw [kept, eraseDups_concat_of_mem (listed.mp known), collects.ordered]
    · have put : (b.insert name value).entries = b.entries ++ [(name, value)] := put_new known
      rw [eraseDups_concat (known ∘ listed.mpr), ← collects.ordered, names, put, List.map_append]
      rfl
  latest entry member := by
    have found : (b.insert name value).get? entry.1 = some entry.2 :=
      get?_of_mem (nodup_put collects.distinct) member
    rw [get?_insert] at found
    rw [last?_concat]
    -- Names are distinct, so an entry under `name` can only be the new one.
    by_cases same : entry.1 = name
    · rw [if_pos same] at found
      rwa [if_pos same.symm]
    · rw [if_neg same] at found
      rw [if_neg (Ne.symm same)]
      exact collects.latest entry (mem_of_get? found)

theorem Collects.extend (collects : Collects pairs b) (more : List (Text × Text)) :
    Collects (pairs ++ more) (b.extend more) := by
  induction more generalizing pairs b with
  | nil => rwa [List.append_nil]
  | cons entry more ih =>
    have later := ih (collects.insert entry.1 entry.2)
    rwa [List.append_assoc] at later

theorem collects_ofList (pairs : List (Text × Text)) : Collects pairs (ofList pairs) :=
  collects_nil.extend pairs

end Bindings

namespace Probe

/-- A color block begins here: the selector behind a point, and a line up to its last semicolon,
whose trimmed text is the value. -/
inductive IsBlock : (here : Text) → (block : Text × Text) → (left : Text) → Prop
  | mk {name line left : Text} (filled : name ≠ []) (plain : ∀ c ∈ name, isSelectorChar c = true)
      (single : '\n' ∉ line) (last : ';' ∉ left.takeWhile (· ≠ '\n')) :
      IsBlock ("." ++ (name ++ (" \x7b\n  color: " ++ (line ++ ';' :: left))))
        (name, Text.trim line) left

/-- The selector can be a variable and the value is a color literal. -/
def Kept (block : Text × Text) : Prop :=
  ('-' ∈ block.1 ∨ '\'' ∈ block.1) ∧ ("#" <+: block.2 ∨ "rgba" <+: block.2)

instance : DecidablePred Kept := fun _ => inferInstanceAs (Decidable (_ ∧ _))

/-- What the kept ones of the blocks bind, one after the other. -/
def bindingsOf (blocks : List (Text × Text)) : List (Text × Text) :=
  (blocks.filter Kept).map fun (name, value) => ('@' :: name, value)

theorem block_eq_some_iff {here left : Text} {found : Text × Text} :
    block none here = some (found, left) ↔ IsBlock here found left := by
  obtain ⟨name, value⟩ := found
  have other : ';' ≠ '\n' := by decide
  rw [block_eq_some]
  constructor
  · rintro ⟨filled, plain, line, rest, rfl, cut, rfl⟩
    obtain ⟨single, last, rfl⟩ := (Text.cutLineLast?_iff other).mp cut
    exact .mk filled plain single last
  · rintro ⟨filled, plain, single, last⟩
    exact ⟨filled, plain, _, _, rfl, (Text.cutLineLast?_iff other).mpr ⟨single, last, rfl⟩, rfl⟩

theorem isKept_iff {name value : Text} : isKept name value = true ↔ Kept (name, value) := by
  have starts : ∀ {start : Text}, Text.startsWith start value = true ↔ start <+: value := by
    intro start
    rw [Text.startsWith, ← Option.ne_none_iff_isSome, ne_eq, Text.after?_eq_none, not_not]
  simp [isKept, Kept, starts, or_comm]

theorem keptBlocks_eq (css : Text) : keptBlocks css = bindingsOf (Text.findAll block css) := by
  rw [keptBlocks, bindingsOf, ← List.filterMap_eq_filter, List.map_filterMap]
  refine List.filterMap_congr fun found _ => ?_
  by_cases kept : Kept found
  · simp [isKept_iff, kept, Option.guard]
  · simp [isKept_iff, kept, Option.guard]

/-- The scan goes over the successive leftmost blocks of a sheet and collects what the kept ones of
them bind. Whatever is bound after it, and whatever is bound from the start, is collected alike. -/
theorem scan_collects (css : Text) :
    (∃ blocks, (∀ others, Text.Leftmost IsBlock css others ↔ others = blocks) ∧
        ∀ more, Bindings.Collects (bindingsOf blocks ++ more) ((scan css).extend more)) ∧
      ∀ pairs more, Bindings.Collects (pairs ++ more) ((Bindings.ofList pairs).extend more) := by
  have collected : ∀ pairs more, Bindings.Collects (pairs ++ more)
      ((Bindings.ofList pairs).extend more) := fun pairs more =>
    (Bindings.collects_ofList pairs).extend more
  refine ⟨⟨Text.findAll block css, fun others => ?_, fun more => ?_⟩, collected⟩
  · exact Text.leftmost_iff block_local block_eq_some_iff
  · rw [← keptBlocks_eq]
    exact collected (keptBlocks css) more

example : scan (".a-1 \x7b\n  color: #111;\n.b \x7b\n  color: #222;\n.c-1 \x7b\n.c-1 \x7b\n" ++
    "  color: #333 ;\n.a-1 \x7b\n  color: rgba(1, 2); x;" : String) =
    ⟨[("@a-1", "rgba(1, 2); x"), ("@c-1", "#333")]⟩ := by decide +kernel

end Probe
end ColorTheme
