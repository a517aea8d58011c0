import ColorTheme.Proofs.Css.RoundTrip

/-!
Passes that only take away. Such a pass decides about every node by itself, and what it decides by
is left as it is by all others. So two of them may change places and a second run of one of them
finds nothing to do: what a list of them leaves depends only on which passes are in it. -/
namespace ColorTheme.Css

/-- A pass that takes out rules by their selectors, or all that bears no color. -/
def Pass.Removes (pass : Pass) : Prop :=
  pass = colorPass ∨ ∃ name drops, pass = dropPass name drops

def Node.reduce? : Node → Option Node
  | .rule r => r.reduce?.map .rule
  | .atRule _ => none

/-- A node that is no rule with a selector to drop. -/
def Node.unless? (drops : Text → Bool) : Node → Option Node
  | .rule r => if drops r.selector then none else some (.rule r)
  | .atRule r => some (.atRule r)

/-- What the passes that take away do to a node. -/
inductive Node.Removal : (Node → Option Node) → Prop
  | colors : Removal reduce?
  | rules (drops : Text → Bool) : Removal (unless? drops)

theorem Sheet.reduce_pointwise (sheet : Sheet) : sheet.reduce = sheet.filterMap Node.reduce? := by
  induction sheet with
  | nil => rfl
  | cons node sheet ih =>
    rw [← List.singleton_append, Sheet.reduce_append, ih, List.filterMap_append]
    cases node with
    | rule r => cases kept : r.reduce? <;> simp [Sheet.reduce_eq, Sheet.rules, Node.reduce?, kept]
    | atRule r => rfl

theorem dropPass_pointwise (name : Text) (drops : Text → Bool) (sheet : Sheet) :
    (dropPass name drops).run sheet = sheet.filterMap (Node.unless? drops) := by
  simp only [dropPass, Sheet.filterRules, Sheet.filterMapRules]
  refine List.filterMap_congr fun node _ => ?_
  cases node with
  | rule r => cases known : drops r.selector <;> simp [Node.unless?, known]
  | atRule r => rfl

theorem Pass.Removes.pointwise {pass : Pass} (removes : pass.Removes) :
    ∃ f, Node.Removal f ∧ ∀ sheet, pass.run sheet = sheet.filterMap f := by
  rcases removes with rfl | ⟨name, drops, rfl⟩
  · exact ⟨_, .colors, Sheet.reduce_pointwise⟩
  · exact ⟨_, .rules drops, dropPass_pointwise name drops⟩

/-- Reduction leaves the selector, by which the other passes decide. -/
theorem Node.reduce?_unless? (drops : Text → Bool) (node : Node) :
    (reduce? node).bind (unless? drops) = (unless? drops node).bind reduce? := by
  cases node with
  | atRule r => rfl
  | rule r =>
    have selector : ∀ reduced, r.reduce? = some reduced → reduced.selector = r.selector := by
      intro reduced kept
      obtain ⟨_, rfl, _⟩ := Rule.reduce?_eq_some kept
      rfl
    cases kept : r.reduce? with
    | none => cases dropped : drops r.selector <;> simp [reduce?, unless?, kept, dropped]
    | some reduced =>
      have same := selector reduced kept
      cases dropped : drops r.selector <;> simp [reduce?, unless?, kept, dropped, same]

section Removal

variable {f g : Node → Option Node}

theorem Node.Removal.comm (first : Removal f) (second : Removal g) (node : Node) :
    (f node).bind g = (g node).bind f := by
  cases first with
  | colors =>
    cases second with
    | colors => rfl
    | rules drops => exact reduce?_unless? drops node
  | rules drops =>
    cases second with
    | colors => exact (reduce?_unless? drops node).symm
    | rules others =>
      cases node with
      | atRule r => rfl
      | rule r =>
        cases first : drops r.selector <;> cases second : others r.selector <;>
          simp [unless?, first, second]

theorem Node.Removal.again (removal : Removal f) (node : Node) : (f node).bind f = f node := by
  cases removal with
  | colors =>
    cases node with
    | atRule r => rfl
    | rule r =>
      cases kept : r.reduce? with
      | none => simp [reduce?, kept]
      | some reduced => simp [reduce?, kept, Rule.reduce?_reduced kept]
  | rules drops =>
    cases node with
    | atRule r => rfl
    | rule r => cases dropped : drops r.selector <;> simp [unless?, dropped]

end Removal

section Passes

variable {pass other : Pass}

theorem Pass.Removes.comm (removes : pass.Removes) (also : other.Removes) (sheet : Sheet) :
    pass.run (other.run sheet) = other.run (pass.run sheet) := by
  obtain ⟨f, first, does⟩ := removes.pointwise
  obtain ⟨g, second, acts⟩ := also.pointwise
  simp only [does, acts, List.filterMap_filterMap]
  exact List.filterMap_congr fun node _ => second.comm first node

theorem Pass.Removes.again (removes : pass.Removes) (sheet : Sheet) :
    pass.run (pass.run sheet) = pass.run sheet := by
  obtain ⟨f, removal, does⟩ := removes.pointwise
  simp only [does, List.filterMap_filterMap]
  exact List.filterMap_congr fun node _ => removal.again node

end Passes

namespace Sheet

def runAll (passes : List Pass) (sheet : Sheet) : Sheet :=
  passes.foldl (fun sheet pass => pass.run sheet) sheet

section RunAll

variable {first second : List Pass} (removal : ∀ pass ∈ first, pass.Removes)
  (also : ∀ pass ∈ second, pass.Removes)

theorem runAll_cons (pass : Pass) (passes : List Pass) (sheet : Sheet) :
    runAll (pass :: passes) sheet = runAll passes (pass.run sheet) := rfl

include also

/-- A pass has nothing left to do in front of passes that do the same somewhere. -/
theorem runAll_absorbs {pass : Pass} (removes : pass.Removes)
    (listed : pass.run ∈ second.map Pass.run) (sheet : Sheet) :
    runAll second (pass.run sheet) = runAll second sheet := by
  induction second generalizing sheet with
  | nil => contradiction
  | cons next second ih =>
    obtain ⟨own, also⟩ := List.forall_mem_cons.mp also
    rw [runAll_cons, runAll_cons]
    rcases List.mem_cons.mp listed with same | later
    · rw [← same, removes.again]
    · rw [own.comm removes, ih also later]

include removal

theorem runAll_covered (covered : first.map Pass.run ⊆ second.map Pass.run) (sheet : Sheet) :
    runAll second (runAll first sheet) = runAll second sheet := by
  induction first generalizing sheet with
  | nil => rfl
  | cons pass first ih =>
    obtain ⟨own, removal⟩ := List.forall_mem_cons.mp removal
    obtain ⟨listed, covered⟩ := List.cons_subset.mp covered
    rw [runAll_cons, ih removal covered, runAll_absorbs also own listed]

theorem runAll_swap (sheet : Sheet) :
    runAll second (runAll first sheet) = runAll first (runAll second sheet) := by
  have all : ∀ pass ∈ first ++ second, pass.Removes := List.forall_mem_append.mpr ⟨removal, also⟩
  have swapped : runAll (first ++ second) sheet = runAll (second ++ first) sheet :=
    List.perm_append_comm.foldl_eq' (fun pass listed other known sheet =>
      (all other known).comm (all pass listed) sheet) sheet
  simpa only [runAll, List.foldl_append] using swapped

end RunAll
end Sheet

/-- Passes that take away leave the same in any order and however often each of them is listed;
what they are called makes no difference. -/
theorem process_unordered {first second : List Pass} (removal : ∀ pass ∈ first, pass.Removes)
    (also : ∀ pass ∈ second, pass.Removes)
    (same : ∀ run, run ∈ first.map Pass.run ↔ run ∈ second.map Pass.run) (css : Text) :
    process css first = process css second := by
  have left : ∀ sheet, Sheet.runAll first sheet = Sheet.runAll second sheet := by
    intro sheet
    calc Sheet.runAll first sheet
      _ = Sheet.runAll first (Sheet.runAll second sheet) :=
        (Sheet.runAll_covered also removal (fun run => (same run).mpr) sheet).symm
      _ = Sheet.runAll second (Sheet.runAll first sheet) :=
        (Sheet.runAll_swap removal also sheet).symm
      _ = Sheet.runAll second sheet :=
        Sheet.runAll_covered removal also (fun run => (same run).mp) sheet
  have written : (fun sheet => (Sheet.runAll first sheet).render) =
      fun sheet => (Sheet.runAll second sheet).render := funext fun sheet => by rw [left]
  exact congrArg (fun write => (Sheet.parse css).map write) written

/-- Rules of a class and of a state are taken out before, between and after two reductions. -/
theorem process_unordered_mixed :
    let a := dropPass "class" (Text.startsWith ".a")
    let hover := dropPass "state" (Text.endsWith ":hover")
    let first := [a, colorPass, hover, colorPass]
    let second := [hover, colorPass, a, a]
    let css : Text := "@media print \x7b\x7d .a \x7b color: red \x7d" ++
      ".b \x7b color: #fff; margin: 0 \x7d .b:hover \x7b color: red \x7d .c \x7b margin: 0 \x7d"
    (∀ pass ∈ first, pass.Removes) ∧ (∀ pass ∈ second, pass.Removes) ∧
      (∀ run, run ∈ first.map Pass.run ↔ run ∈ second.map Pass.run) ∧
      process css first = process css second ∧
      process css second = .ok ".b \x7b\n  color: #fff;\n\x7d\n" := by
  intro a hover first second css
  have colors : colorPass.Removes := .inl rfl
  have dropsA : a.Removes := .inr ⟨_, _, rfl⟩
  have dropsHover : hover.Removes := .inr ⟨_, _, rfl⟩
  have removal : ∀ pass ∈ first, pass.Removes := by simp [first, colors, dropsA, dropsHover]
  have also : ∀ pass ∈ second, pass.Removes := by simp [second, colors, dropsA, dropsHover]
  have same : ∀ run, run ∈ first.map Pass.run ↔ run ∈ second.map Pass.run := by
    intro run
    simp only [first, second, List.map_cons, List.map_nil, List.mem_cons, List.not_mem_nil]
    grind
  exact ⟨removal, also, same, process_unordered removal also same css, by decide +kernel⟩

end ColorTheme.Css
