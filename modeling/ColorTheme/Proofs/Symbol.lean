import ColorTheme.Proofs.Bindings
import ColorTheme.Proofs.Text.Search
import ColorTheme.Symbol

/-!
Where the names of symbols come from. Every symbol was declared in some style sheet, so its name
is the sigil and a word. -/
namespace ColorTheme

namespace Variable

/-- The sigil and a word. -/
def IsName (name : Text) : Prop :=
  ∃ word, name = '@' :: word ∧ word ≠ [] ∧ ∀ c ∈ word, Text.isWordOrDash c = true

theorem declared_name {before : Option Char} {here left : Text} {v : Variable}
    (found : declared before here = some (v, left)) : IsName v.name := by
  simp only [declared, Option.bind_eq_bind, Option.bind_eq_some_iff] at found
  obtain ⟨text, _, found⟩ := found
  split at found
  · contradiction
  · rename_i filled
    simp only [Option.bind_eq_some_iff] at found
    obtain ⟨_, _, ⟨value, rest⟩, _, same⟩ := found
    cases same
    exact ⟨_, rfl, by simpa using filled, List.all_eq_true.mp List.all_takeWhile⟩

theorem extract_name {text : Text} {v : Variable} (member : v ∈ extract text) :
    IsName v.name := by
  obtain ⟨_, _, _, found⟩ := Text.matched_of_mem_findAll member
  exact declared_name found

theorem mem_bindColors {table : Bindings} {classifier : Classifier} {start bound : Bindings}
    {declared : List Variable} (done : bindColors table classifier start declared = .ok bound)
    {entry : Text × Text} (member : entry ∈ bound.entries) : entry ∈ start.entries ∨
      ∃ v ∈ declared, v.name = entry.1 ∧ terminal table v = .ok (some entry.2) := by
  induction declared generalizing start with
  | nil =>
    cases done
    exact .inl member
  | cons v rest ih =>
    have later : ∀ {start : Bindings}, bindColors table classifier start rest = .ok bound →
        entry ∈ start.entries ∨
          ∃ v' ∈ v :: rest, v'.name = entry.1 ∧ terminal table v' = .ok (some entry.2) :=
      fun done => (ih done).imp_right fun ⟨other, listed, leads⟩ =>
        ⟨other, List.mem_cons_of_mem v listed, leads⟩
    unfold bindColors at done
    split at done
    · contradiction
    · exact later done
    · rename_i value ends
      rcases later done with known | declared
      · split at known
        · rcases Bindings.mem_put known with same | earlier
          · exact .inr ⟨v, List.mem_cons_self, by rw [same], by rw [same, ends]⟩
          · exact .inl earlier
        · exact .inl known
      · exact .inr declared

end Variable

namespace Symbol

/-- Every name is declared in some text. -/
def Declared (symbols : Bindings) : Prop :=
  ∀ name ∈ symbols.names, ∃ text, ∃ v ∈ Variable.extract text, v.name = name

theorem declared_parse (text : Text) : Declared (Bindings.parse text) := by
  intro name member
  rcases Bindings.mem_names_extend.mp member with empty | listed
  · contradiction
  · rw [List.map_map] at listed
    obtain ⟨v, found, rfl⟩ := List.mem_map.mp listed
    exact ⟨text, v, found, rfl⟩

theorem declared_colors {text : Text} {classifier : Classifier} {colors : Bindings}
    (done : Variable.colors (Variable.extract text) classifier = .ok colors) : Declared colors := by
  intro name member
  obtain ⟨entry, bound, rfl⟩ := List.mem_map.mp member
  rcases Variable.mem_bindColors done bound with empty | ⟨v, found, same, _⟩
  · contradiction
  · exact ⟨text, v, found, same⟩

/-- Colors of one text under the declarations of another are declared. -/
theorem declared_merge {colors raw : Bindings} (first : Declared colors) (second : Declared raw) :
    Declared (merge colors raw) := by
  intro name member
  rcases Bindings.mem_names_extend.mp member with known | known
  · exact first name known
  · exact second name known

section Select

variable {requested : List Text} {symbols : Bindings}

/-- What holds of a selection if it is kept when a new name of a symbol and no shade is added. -/
theorem select_induction {P : List Text → Prop} (start : P [])
    (step : ∀ chosen name, name ∈ symbols.names → Shade.isShadeName name = false → name ∉ chosen →
      P chosen → P (chosen ++ [name])) :
    P (select requested symbols) := by
  refine List.foldlRecOn (motive := P) requested _ start fun chosen known name _ => ?_
  split
  · rename_i fit
    simp only [Bool.and_eq_true, Bool.not_eq_true'] at fit
    obtain ⟨⟨symbol, plain⟩, new⟩ := fit
    refine step chosen name (Bindings.mem_names_of_contains symbol) plain ?_ known
    simpa using new
  · exact known

theorem mem_names_of_select {name : Text} (member : name ∈ select requested symbols) :
    name ∈ symbols.names := by
  refine select_induction (P := fun chosen => ∀ name ∈ chosen, name ∈ symbols.names) (by simp) ?_
    name member
  intro chosen other symbol _ _ known name member
  rcases List.mem_append.mp member with earlier | last
  · exact known name earlier
  · exact List.mem_singleton.mp last ▸ symbol

theorem select_plain {name : Text} (member : name ∈ select requested symbols) :
    Shade.isShadeName name = false := by
  refine select_induction (P := fun chosen => ∀ name ∈ chosen, Shade.isShadeName name = false)
    (by simp) ?_ name member
  intro chosen other _ plain _ known name member
  rcases List.mem_append.mp member with earlier | last
  · exact known name earlier
  · exact List.mem_singleton.mp last ▸ plain

theorem select_nodup : (select requested symbols).Nodup := by
  refine select_induction List.nodup_nil fun chosen name _ _ new distinct => ?_
  exact List.nodup_append'.mpr ⟨distinct, by simp, by simpa using new⟩

end Select

end Symbol
end ColorTheme
