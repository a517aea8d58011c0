import ColorTheme.Proofs.Bindings
import ColorTheme.Theme
import Mathlib.Data.List.Induction

/-!
Layers of bindings. Where several are laid over each other, the last that has a name decides, and
within it the last value of the name; in which order the names stand does not matter. -/
namespace ColorTheme

namespace Bindings

def last? (entries : List (Text × Text)) (name : Text) : Option Text :=
  ((entries.filter fun entry => entry.1 = name).getLast?).map Prod.snd

theorem last?_concat (front : List (Text × Text)) (entry : Text × Text) (name : Text) :
    last? (front ++ [entry]) name = if entry.1 = name then some entry.2 else last? front name := by
  by_cases same : entry.1 = name <;> simp [last?, List.filter_append, same]

theorem get?_extend (b : Bindings) (entries : List (Text × Text)) (name : Text) :
    (b.extend entries).get? name = (last? entries name).or (b.get? name) := by
  -- From the back, since the last entry of a name counts.
  induction entries using List.reverseRecOn with
  | nil => rfl
  | append_singleton front entry ih =>
    have step : b.extend (front ++ [entry]) = (b.extend front).insert entry.1 entry.2 := by
      simp [extend, List.foldl_append]
    rw [step, get?_insert, last?_concat]
    by_cases same : entry.1 = name
    · simp [same]
    · rw [if_neg (Ne.symm same), if_neg same, ih]

theorem nodup_put {name value : Text} {entries : List (Text × Text)}
    (distinct : (entries.map Prod.fst).Nodup) : ((put name value entries).map Prod.fst).Nodup := by
  induction entries with
  | nil => exact List.nodup_singleton name
  | cons entry rest ih =>
    obtain ⟨first, later⟩ := List.nodup_cons.mp distinct
    unfold put
    split
    · exact distinct
    · rename_i other
      refine List.nodup_cons.mpr ⟨fun member => ?_, ih later⟩
      rcases mem_names_put.mp member with same | known
      · exact other same.symm
      · exact first known

theorem nodup_extend {b : Bindings} (distinct : b.names.Nodup) (entries : List (Text × Text)) :
    (b.extend entries).names.Nodup :=
  List.foldlRecOn (motive := fun b : Bindings => b.names.Nodup) entries _ distinct
    fun _ known _ _ => nodup_put known

theorem nodup_ofVariables (declared : List Variable) : (ofVariables declared).names.Nodup := by
  have empty : ({} : Bindings).names.Nodup := List.nodup_nil
  exact nodup_extend empty _

theorem last?_entries {b : Bindings} (distinct : b.names.Nodup) (name : Text) :
    last? b.entries name = b.get? name := by
  have again : (ofList b.entries).get? name = last? b.entries name := by
    rw [ofList, get?_extend]
    exact Option.or_none
  rw [← again, get?, ofList_entries distinct, get?]

theorem last?_perm {entries others : List (Text × Text)} (same : entries.Perm others)
    (distinct : (others.map Prod.fst).Nodup) (name : Text) :
    last? entries name = last? others name := by
  have shuffled : (entries.map Prod.fst).Nodup := (same.map Prod.fst).nodup_iff.mpr distinct
  calc last? entries name
    _ = get? ⟨entries⟩ name := last?_entries (b := ⟨entries⟩) shuffled name
    _ = get? ⟨others⟩ name := get?_perm same distinct name
    _ = last? others name := (last?_entries (b := ⟨others⟩) distinct name).symm

theorem contains_iff {b : Bindings} {name : Text} : b.contains name = true ↔ name ∈ b.names := by
  refine ⟨mem_names_of_contains, fun member => ?_⟩
  obtain ⟨entry, listed, rfl⟩ := List.mem_map.mp member
  cases found : b.get? entry.1 with
  | some value => simp [contains, found]
  | none =>
    rw [get?, List.lookup_eq_none_iff] at found
    simpa using found entry listed

end Bindings

def Variable.last? (declared : List Variable) (name : Text) : Option Text :=
  ((declared.filter fun v => v.name = name).getLast?).map Variable.value

theorem Bindings.get?_last (declared : List Variable) (name : Text) :
    (ofVariables declared).get? name = Variable.last? declared name := by
  have mapped : (declared.map fun v => (v.name, v.value)).filter (fun entry => entry.1 = name) =
      (declared.filter fun v => v.name = name).map fun v => (v.name, v.value) :=
    List.filter_map
  rw [ofVariables, ofList, get?_extend, last?, mapped, List.getLast?_map, Option.map_map,
    Variable.last?]
  exact Option.or_none

namespace Themes

/-- Of the three layers the user's decides first, then the one of the variable file. -/
theorem overlay_get? {table : Bindings} {base : List Variable}
    (same : table.entries.Perm (Bindings.ofVariables base).entries) (own : List Variable)
    (custom : List (Text × Text)) (name : Text) :
    (overlay (Bindings.ofVariables own).entries table.entries custom).get? name =
      (Bindings.last? custom name).or
        ((Variable.last? base name).or (Variable.last? own name)) := by
  have distinct := Bindings.nodup_ofVariables base
  have layer : Bindings.last? table.entries name = Variable.last? base name := by
    rw [Bindings.last?_perm same distinct, Bindings.last?_entries distinct, Bindings.get?_last]
  have lowest : (Bindings.ofList (Bindings.ofVariables own).entries).get? name =
      Variable.last? own name := by
    rw [Bindings.get?, Bindings.ofList_entries (Bindings.nodup_ofVariables own), ← Bindings.get?,
      Bindings.get?_last]
  rw [overlay, Bindings.get?_extend, Bindings.get?_extend, layer, lowest]

end Themes
end ColorTheme
