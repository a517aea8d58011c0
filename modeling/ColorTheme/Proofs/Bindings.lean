import ColorTheme.Bindings
import Mathlib.Data.List.Induction
import Mathlib.Data.List.Nodup

/-!
Bindings with distinct names are found by name, and binding such a list anew gives it back. -/
namespace ColorTheme

theorem eraseDups_concat_of_mem [BEq α] [LawfulBEq α] {done : List α} {a : α} (known : a ∈ done) :
    (done ++ [a]).eraseDups = done.eraseDups := by
  rw [List.eraseDups_append]
  simp [List.removeAll, known]

theorem eraseDups_concat [BEq α] [LawfulBEq α] {done : List α} {a : α} (new : a ∉ done) :
    (done ++ [a]).eraseDups = done.eraseDups ++ [a] := by
  rw [List.eraseDups_append]
  simp [List.removeAll, new, List.eraseDups_cons]

theorem eraseDups_of_nodup [BEq α] [LawfulBEq α] {items : List α} (distinct : items.Nodup) :
    items.eraseDups = items := by
  induction items using List.reverseRecOn with
  | nil => rfl
  | append_singleton done a ih =>
    obtain ⟨earlier, _, apart⟩ := List.nodup_append'.mp distinct
    rw [eraseDups_concat (by simpa using apart), ih earlier]

theorem nodup_eraseDups [BEq α] [LawfulBEq α] (items : List α) : items.eraseDups.Nodup := by
  induction items using List.reverseRecOn with
  | nil => exact List.nodup_nil
  | append_singleton done a ih =>
    by_cases known : a ∈ done
    · rwa [eraseDups_concat_of_mem known]
    · have apart : a ∉ done.eraseDups := fun kept => known (List.mem_eraseDups.mp kept)
      rw [eraseDups_concat known, ← List.concat_eq_append]
      exact ih.concat apart

namespace Bindings

theorem lookup_of_mem {β : Type} {entries : List (Text × β)}
    (distinct : (entries.map Prod.fst).Nodup) {entry : Text × β} (member : entry ∈ entries) :
    entries.lookup entry.1 = some entry.2 := by
  obtain ⟨front, behind, rfl⟩ := List.append_of_mem member
  refine List.lookup_eq_some_iff.mpr ⟨front, behind, rfl, fun other known => ?_⟩
  rw [List.map_append, List.nodup_append] at distinct
  exact bne_iff_ne.mpr fun same =>
    distinct.2.2 _ (List.mem_map_of_mem known) _ List.mem_cons_self same.symm

theorem mem_of_lookup {β : Type} {entries : List (Text × β)} {name : Text} {value : β}
    (found : entries.lookup name = some value) : (name, value) ∈ entries := by
  obtain ⟨front, behind, whole, _⟩ := List.lookup_eq_some_iff.mp found
  simp [whole]

theorem mem_of_get? {b : Bindings} {name value : Text} (found : b.get? name = some value) :
    (name, value) ∈ b.entries := mem_of_lookup found

theorem get?_of_mem {b : Bindings} (distinct : b.names.Nodup) {entry : Text × Text}
    (member : entry ∈ b.entries) : b.get? entry.1 = some entry.2 :=
  lookup_of_mem distinct member

theorem mem_names_of_contains {b : Bindings} {name : Text} (bound : b.contains name = true) :
    name ∈ b.names := by
  obtain ⟨value, found⟩ := Option.isSome_iff_exists.mp bound
  exact List.mem_map_of_mem (mem_of_get? found)

theorem put_new {name value : Text} {entries : List (Text × Text)}
    (new : name ∉ entries.map Prod.fst) : put name value entries = entries ++ [(name, value)] := by
  induction entries with
  | nil => rfl
  | cons entry rest ih =>
    obtain ⟨other, old⟩ := entry
    rw [List.map_cons, List.mem_cons, not_or] at new
    rw [put, if_neg new.1, ih new.2]
    rfl

theorem names_put_known {name value : Text} {entries : List (Text × Text)}
    (known : name ∈ entries.map Prod.fst) :
    (put name value entries).map Prod.fst = entries.map Prod.fst := by
  induction entries with
  | nil => contradiction
  | cons entry rest ih =>
    unfold put
    split
    · rfl
    · rename_i other
      rw [List.map_cons, List.mem_cons] at known
      rw [List.map_cons, List.map_cons, ih (known.resolve_left other)]

theorem mem_names_put {name value other : Text} {entries : List (Text × Text)} :
    other ∈ (put name value entries).map Prod.fst ↔ other = name ∨ other ∈ entries.map Prod.fst := by
  induction entries with
  | nil => simp [put]
  | cons entry rest ih =>
    obtain ⟨first, old⟩ := entry
    unfold put
    split
    · rename_i same
      simp [same]
    · simp only [List.map_cons, List.mem_cons, ih]
      exact or_left_comm

theorem mem_put {name value : Text} {entries : List (Text × Text)} {entry : Text × Text}
    (member : entry ∈ put name value entries) : entry = (name, value) ∨ entry ∈ entries := by
  induction entries with
  | nil => exact .inl (List.mem_singleton.mp member)
  | cons first rest ih =>
    unfold put at member
    split at member
    · rename_i same
      exact (List.mem_cons.mp member).imp (same ▸ ·) (List.mem_cons_of_mem first)
    · rcases List.mem_cons.mp member with here | later
      · exact .inr (here ▸ List.mem_cons_self)
      · exact (ih later).imp_right (List.mem_cons_of_mem first)

theorem mem_extend {b : Bindings} {entries : List (Text × Text)} {entry : Text × Text}
    (member : entry ∈ (b.extend entries).entries) : entry ∈ b.entries ∨ entry ∈ entries := by
  induction entries generalizing b with
  | nil => exact .inl member
  | cons first rest ih =>
    rw [extend, List.foldl_cons, ← extend] at member
    rcases ih member with put | later
    · rcases mem_put put with same | earlier
      · exact .inr (same ▸ List.mem_cons_self)
      · exact .inl earlier
    · exact .inr (List.mem_cons_of_mem first later)

theorem get?_perm {a b : Bindings} (same : a.entries.Perm b.entries) (distinct : b.names.Nodup)
    (name : Text) : a.get? name = b.get? name := by
  have names : a.names.Nodup := (same.map Prod.fst).nodup_iff.mpr distinct
  cases found : b.get? name with
  | some value => exact get?_of_mem names (same.mem_iff.mpr (mem_of_get? found))
  | none =>
    cases known : a.get? name with
    | none => rfl
    | some value =>
      have listed := get?_of_mem distinct (same.mem_iff.mp (mem_of_get? known))
      rw [found] at listed
      contradiction

theorem mem_names_extend {b : Bindings} {entries : List (Text × Text)} {name : Text} :
    name ∈ (b.extend entries).names ↔ name ∈ b.names ∨ name ∈ entries.map Prod.fst := by
  induction entries generalizing b with
  | nil => simp [extend]
  | cons entry rest ih =>
    have step : name ∈ (b.insert entry.1 entry.2).names ↔ name = entry.1 ∨ name ∈ b.names :=
      mem_names_put
    rw [extend, List.foldl_cons, ← extend, ih, step, List.map_cons, List.mem_cons]
    exact or_assoc.trans or_left_comm

theorem extend_new {b : Bindings} {entries : List (Text × Text)}
    (distinct : (b.entries ++ entries).map Prod.fst |>.Nodup) :
    (b.extend entries).entries = b.entries ++ entries := by
  induction entries generalizing b with
  | nil => simp [extend]
  | cons entry rest ih =>
    have new : entry.1 ∉ b.entries.map Prod.fst := by
      rw [List.map_append, List.nodup_append] at distinct
      exact fun known => distinct.2.2 _ known _ List.mem_cons_self rfl
    have put : (b.insert entry.1 entry.2).entries = b.entries ++ [entry] := put_new new
    have later := ih (b := b.insert entry.1 entry.2) (by simpa [put] using distinct)
    rw [put, List.append_assoc] at later
    exact later

theorem ofList_entries {entries : List (Text × Text)} (distinct : (entries.map Prod.fst).Nodup) :
    (ofList entries).entries = entries := extend_new distinct

end Bindings
end ColorTheme
