import ColorTheme.CommandLine.Run
import ColorTheme.Proofs.Declaration

/-!
Declarations that are read, listed and read again. What is read from a text is trimmed, has a plain
name and holds no semicolon, so on a line of its own it is read as it is, whatever else its value
may say; every list of names and values that the program prints has this form. -/
namespace ColorTheme.Variable

def ofEntry (entry : Text × Text) : Variable := ⟨entry.1, entry.2⟩

theorem symbolLines_eq (symbols : Bindings) :
    symbolLines symbols = listing (symbols.sorted.map ofEntry) := by
  rw [symbolLines, listing, List.flatMap_map]
  exact List.flatMap_congr fun entry _ => by simp [render, ofEntry]

theorem sentinelLines_eq (map : SentinelMap) :
    map.declarations = listing (map.entries.map ofEntry) := by
  rw [SentinelMap.declarations, listing, List.flatMap_map]
  exact List.flatMap_congr fun entry _ => by simp [render, ofEntry]

/-- The declarations of any text, one on each line as symbols and sentinels are printed, are read
as the same declarations in the same order. -/
theorem extract_listed (text : Text) :
    extract (listing (extract text)) = extract text ∧
      (∀ symbols : Bindings, symbolLines symbols = listing (symbols.sorted.map ofEntry)) ∧
      ∀ map : SentinelMap, map.declarations = listing (map.entries.map ofEntry) := by
  refine ⟨?_, symbolLines_eq, sentinelLines_eq⟩
  have again : extract (listing (extract text) ++ []) = extract text ++ extract [] :=
    extract_listing (fun _ => readable_of_mem_extract) []
  rw [List.append_nil] at again
  calc extract (listing (extract text))
    _ = extract text ++ extract [] := again
    _ = extract text := List.append_nil _

/-- Quotation marks, a value on two lines that looks like a declaration, and one without a value. -/
example :
    let listed : Text := "@a: \"@b: x\n  @c\";\n@d-1: ;\n"
    listing (extract "p @'a'\t:\"@b: x\n  @c\" ; @: y; @d-1 : ;@e: z") = listed ∧
      listing (extract listed) = listed := by decide +kernel

end ColorTheme.Variable
