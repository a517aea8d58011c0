import ColorTheme.Proofs.Colors
import Mathlib.Tactic.Choose

/-!
Chains that end and chains that do not. The loop that follows references has no bound of its own:
it ends since the names it has met are distinct names of the table. Where it reports a cycle there
is one in the table, and each cycle of the table is met from the declarations of its names. -/
namespace ColorTheme.Variable

def next? (table : Bindings) (name : Text) : Option Text := (table.get? name).filter isReference

/-- The name at which the walk from `start` is after `i` references, if it gets so far. -/
def visit (table : Bindings) (start : Text) : (i : Nat) → Option Text
  | 0 => some start
  | i + 1 => (visit table start i).bind (next? table)

/-- The walk is over at `name`: its value is no reference, or it has none. -/
def Stops (table : Bindings) (start name : Text) : Prop :=
  ∃ i, visit table start i = some name ∧ next? table name = none

/-- The walk comes back to a name. -/
def Repeats (table : Bindings) (start : Text) : Prop :=
  ∃ i j name, i < j ∧ visit table start i = some name ∧ visit table start j = some name

/-- The walk from `start` on, up to the first name that it has met before. -/
structure Closes (table : Bindings) (start : Text) (path : List Text) : Prop where
  walk : ∀ i < path.length, path[i]? = visit table start i
  distinct : path.dropLast.Nodup
  again : ∃ last ∈ path.dropLast, path.getLast? = some last

/-- The loop at `name` after the names met, as long as it takes: its lookups and its end. -/
inductive Run (table : Bindings) : (met : List Text) → (name : Text) → (lookups : Nat) → Chain → Prop
  | again {met : List Text} {name : Text} (known : name ∈ met) :
      Run table met name 0 (.cycle (met ++ [name]))
  | missing {met : List Text} {name : Text} (new : name ∉ met) (unbound : table.get? name = none) :
      Run table met name 1 .dangling
  | ended {met : List Text} {name value : Text} (new : name ∉ met)
      (bound : table.get? name = some value) (final : isReference value = false) :
      Run table met name 1 (.value value)
  | step {met : List Text} {name other : Text} {lookups : Nat} {chain : Chain} (new : name ∉ met)
      (bound : table.get? name = some other) (reference : isReference other = true)
      (later : Run table (met ++ [name]) other lookups chain) :
      Run table met name (lookups + 1) chain

/-- Where the walk from `start` ends, for each of the answers. -/
def Ends (table : Bindings) (start : Text) : Chain → Prop
  | .value value => ∃ i name, visit table start i = some name ∧ table.get? name = some value ∧
      isReference value = false
  | .dangling => ∃ i name, visit table start i = some name ∧ table.get? name = none
  | .cycle path => Closes table start path

variable {table : Bindings} {start name other value : Text} {met path : List Text}

theorem next?_eq_some :
    next? table name = some other ↔ table.get? name = some other ∧ isReference other = true :=
  Option.filter_eq_some_iff

section Visit

variable {i j : Nat}

theorem visit_succ (here : visit table start i = some name) :
    visit table start (i + 1) = next? table name := by
  rw [visit, here, Option.bind_some]

theorem visit_add (here : visit table start i = some name) (j : Nat) :
    visit table start (i + j) = visit table name j := by
  induction j with
  | zero => exact here
  | succ j ih => rw [← Nat.add_assoc, visit, visit, ih]

theorem visit_none (past : visit table start i = none) (later : i ≤ j) :
    visit table start j = none := by
  induction later with
  | refl => exact past
  | step _ ih => rw [visit, ih, Option.bind_none]

theorem Stops.unique (stops : Stops table start name) (halts : Stops table start other) :
    name = other := by
  obtain ⟨i, here, stop⟩ := stops
  obtain ⟨j, there, halt⟩ := halts
  have past : ∀ {k l : Nat} {last : Text}, visit table start k = some last →
      next? table last = none → k < l → visit table start l = none := by
    intro k l last reached final before
    exact visit_none ((visit_succ reached).trans final) before
  rcases Nat.lt_trichotomy i j with before | rfl | after
  · exact absurd (there.symm.trans (past here stop before)) nofun
  · exact Option.some.inj (here.symm.trans there)
  · exact absurd (here.symm.trans (past there halt after)) nofun

theorem Repeats.endless (repeats : Repeats table start) (k : Nat) :
    ∃ name, visit table start k = some name := by
  obtain ⟨i, j, name, before, first, second⟩ := repeats
  induction k using Nat.strongRecOn with
  | ind k ih =>
    by_cases within : k ≤ j
    · by_contra past
      have ended := visit_none (Option.eq_none_iff_forall_ne_some.mpr fun _ h => past ⟨_, h⟩) within
      exact absurd (second.symm.trans ended) nofun
    · -- Past the second visit the walk is where it was as far past the first one.
      obtain ⟨d, rfl⟩ := Nat.exists_eq_add_of_le (Nat.le_of_not_le within)
      rw [visit_add second, ← visit_add first]
      exact ih (i + d) (Nat.add_lt_add_right before d)

theorem Stops.not_repeats (stops : Stops table start name) : ¬ Repeats table start := by
  obtain ⟨i, here, stop⟩ := stops
  intro repeats
  obtain ⟨other, there⟩ := repeats.endless (i + 1)
  exact absurd (there.symm.trans ((visit_succ here).trans stop)) nofun

end Visit

/-- A state of the loop: the names met are the walk so far, each of them once, and all are bound. -/
structure Followed (table : Bindings) (start : Text) (met : List Text) (name : Text) : Prop where
  walk : ∀ i ≤ met.length, (met ++ [name])[i]? = visit table start i
  distinct : met.Nodup
  bound : met ⊆ table.names

theorem Followed.first : Followed table start [] start where
  walk i least := by
    obtain rfl := Nat.le_zero.mp least
    rfl
  distinct := List.nodup_nil
  bound := List.nil_subset _

theorem Followed.here (followed : Followed table start met name) :
    visit table start met.length = some name := by
  rw [← followed.walk met.length (Nat.le_refl _), List.getElem?_concat_length]

theorem Followed.push (followed : Followed table start met name) (new : name ∉ met)
    (bound : table.get? name = some other) (reference : isReference other = true) :
    Followed table start (met ++ [name]) other where
  walk i least := by
    rw [List.length_append, List.length_singleton] at least
    rcases Nat.le_succ_iff.mp least with earlier | rfl
    · rw [List.getElem?_append_left (by simpa using Nat.lt_succ_of_le earlier)]
      exact followed.walk i earlier
    · rw [visit_succ followed.here, next?_eq_some.mpr ⟨bound, reference⟩]
      exact List.getElem?_eq_some_iff.mpr ⟨by simp, by simp⟩
  distinct := List.nodup_append.mpr ⟨followed.distinct, List.nodup_singleton name,
    fun met known _ last same => new (List.mem_singleton.mp last ▸ same ▸ known)⟩
  bound := List.append_subset.mpr
    ⟨followed.bound, by simpa using Bindings.mem_names_of_get? bound⟩

theorem Followed.length_le (followed : Followed table start met name) : met.length ≤ table.size := by
  have bounded := followed.distinct.length_le_of_subset followed.bound
  rwa [Bindings.names, List.length_map] at bounded

theorem Followed.run {steps : Nat} (followed : Followed table start met name)
    (enough : table.size < met.length + steps) :
    ∃ lookups ≤ steps, Run table met name lookups (follow table steps met name) := by
  induction steps generalizing met name with
  | zero => exact absurd followed.length_le (Nat.not_le_of_gt enough)
  | succ steps ih =>
    unfold follow
    split
    · rename_i known
      exact ⟨0, Nat.zero_le _, .again (List.contains_iff_mem.mp known)⟩
    · rename_i new
      rw [List.contains_iff_mem] at new
      split
      · rename_i unbound
        exact ⟨1, Nat.succ_le_succ (Nat.zero_le _), .missing new unbound⟩
      · rename_i value bound
        split
        · rename_i reference
          obtain ⟨lookups, few, later⟩ := ih (followed.push new bound reference)
            (by simp only [List.length_append, List.length_singleton]; omega)
          exact ⟨lookups + 1, Nat.succ_le_succ few, .step new bound reference later⟩
        · rename_i final
          exact ⟨1, Nat.succ_le_succ (Nat.zero_le _),
            .ended new bound (Bool.eq_false_iff.mpr final)⟩

theorem Run.unique {n m : Nat} {chain other : Chain} (run : Run table met name n chain)
    (again : Run table met name m other) : n = m ∧ chain = other := by
  induction run generalizing m with
  | again known =>
    cases again with
    | again _ => exact ⟨rfl, rfl⟩
    | missing new _ => exact absurd known new
    | ended new _ _ => exact absurd known new
    | step new _ _ _ => exact absurd known new
  | missing new unbound =>
    cases again with
    | again known => exact absurd known new
    | missing _ _ => exact ⟨rfl, rfl⟩
    | ended _ bound _ => exact absurd (unbound.symm.trans bound) nofun
    | step _ bound _ _ => exact absurd (unbound.symm.trans bound) nofun
  | ended new bound final =>
    cases again with
    | again known => exact absurd known new
    | missing _ unbound => exact absurd (unbound.symm.trans bound) nofun
    | ended _ bound' _ => exact ⟨rfl, congrArg _ (Option.some.inj (bound.symm.trans bound'))⟩
    | step _ bound' reference _ =>
      cases bound.symm.trans bound'
      exact absurd reference (by simp [final])
  | step new bound reference later ih =>
    cases again with
    | again known => exact absurd known new
    | missing _ unbound => exact absurd (unbound.symm.trans bound) nofun
    | ended _ bound' final =>
      cases bound.symm.trans bound'
      exact absurd reference (by simp [final])
    | step _ bound' _ later' =>
      cases bound.symm.trans bound'
      obtain ⟨same, ends⟩ := ih later'
      exact ⟨congrArg (· + 1) same, ends⟩

theorem Run.ends {lookups : Nat} {chain : Chain} (run : Run table met name lookups chain)
    (followed : Followed table start met name) : Ends table start chain := by
  induction run with
  | again known =>
    refine ⟨fun i inside => ?_, ?_, ?_⟩
    · rw [List.length_append, List.length_singleton] at inside
      exact followed.walk i (Nat.le_of_lt_succ inside)
    · rw [List.dropLast_concat]
      exact followed.distinct
    · rw [List.dropLast_concat, List.getLast?_concat]
      exact ⟨_, known, rfl⟩
  | missing _ unbound => exact ⟨_, _, followed.here, unbound⟩
  | ended _ bound final => exact ⟨_, _, followed.here, bound, final⟩
  | step new bound reference _ ih => exact ih (followed.push new bound reference)

theorem Closes.repeats (closes : Closes table start path) : Repeats table start := by
  obtain ⟨last, earlier, final⟩ := closes.again
  obtain ⟨i, inside, same⟩ := List.mem_iff_getElem.mp earlier
  obtain ⟨front, rfl⟩ := List.getLast?_eq_some_iff.mp final
  simp only [List.dropLast_concat] at inside same
  refine ⟨i, front.length, last, inside, ?_, ?_⟩
  · rw [← closes.walk i (by simpa using Nat.lt_succ_of_lt inside),
      List.getElem?_append_left inside, List.getElem?_eq_getElem inside, same]
  · rw [← closes.walk front.length (by simp), List.getElem?_concat_length]

theorem run_resolve (table : Bindings) (name : Text) :
    ∃ lookups ≤ table.size + 1, Run table [] name lookups (resolve table name) :=
  Followed.first.run (by simp)

theorem ends_resolve (table : Bindings) (name : Text) : Ends table name (resolve table name) := by
  obtain ⟨_, _, run⟩ := run_resolve table name
  exact run.ends .first

/-- Either the walk is over, and the value of its last name is answered, or it repeats a name. -/
theorem resolve_cases (table : Bindings) (start : Text) :
    (∃ last, Stops table start last ∧
        resolve table start = (table.get? last).elim .dangling .value) ∨
      Repeats table start ∧ ∃ path, resolve table start = .cycle path := by
  have ends := ends_resolve table start
  cases known : resolve table start with
  | value value =>
    rw [known] at ends
    obtain ⟨i, last, here, bound, final⟩ := ends
    exact .inl ⟨last, ⟨i, here, by simp [next?, bound, final]⟩, by rw [bound]; rfl⟩
  | dangling =>
    rw [known] at ends
    obtain ⟨i, last, here, unbound⟩ := ends
    exact .inl ⟨last, ⟨i, here, by simp [next?, unbound]⟩, by rw [unbound]; rfl⟩
  | cycle path =>
    rw [known] at ends
    exact .inr ⟨Closes.repeats ends, path, rfl⟩

theorem resolve_of_stops (stops : Stops table start name) :
    resolve table start = (table.get? name).elim .dangling .value := by
  rcases resolve_cases table start with ⟨last, halts, answer⟩ | ⟨repeats, _⟩
  · rw [answer, stops.unique halts]
  · exact absurd repeats stops.not_repeats

theorem resolve_eq_cycle : (∃ path, resolve table start = .cycle path) ↔ Repeats table start := by
  rcases resolve_cases table start with ⟨last, halts, answer⟩ | ⟨repeats, cycle⟩
  · rw [answer]
    refine iff_of_false ?_ halts.not_repeats
    cases table.get? last <;> simp
  · exact iff_of_true cycle repeats

/-- The loop ends within one lookup more than the table has names. It answers the value, other than
a reference, that the walk comes to; nothing where the walk comes to a name that is not bound; and
where the walk repeats a name, the walk itself up to the first repetition. -/
theorem resolve_ends (table : Bindings) (name : Text) :
    (∃ lookups ≤ table.size + 1, ∀ n chain,
        Run table [] name n chain ↔ n = lookups ∧ chain = resolve table name) ∧
      (∀ value, resolve table name = .value value ↔ ∃ i met, visit table name i = some met ∧
        table.get? met = some value ∧ isReference value = false) ∧
      (resolve table name = .dangling ↔ ∃ i met, visit table name i = some met ∧
        table.get? met = none) ∧
      ((∃ path, resolve table name = .cycle path) ↔ Repeats table name) ∧
      ∀ path, resolve table name = .cycle path → Closes table name path := by
  have ends := ends_resolve table name
  refine ⟨?_, fun value => ⟨?_, ?_⟩, ⟨?_, ?_⟩, resolve_eq_cycle, ?_⟩
  · obtain ⟨lookups, few, run⟩ := run_resolve table name
    refine ⟨lookups, few, fun n chain => ⟨fun other => other.unique run, ?_⟩⟩
    rintro ⟨rfl, rfl⟩
    exact run
  · intro found
    rwa [found] at ends
  · rintro ⟨i, met, here, bound, final⟩
    rw [resolve_of_stops ⟨i, here, by simp [next?, bound, final]⟩, bound]
    rfl
  · intro dangling
    rwa [dangling] at ends
  · rintro ⟨i, met, here, unbound⟩
    rw [resolve_of_stops ⟨i, here, by simp [next?, unbound]⟩, unbound]
    rfl
  · intro path cycle
    rwa [cycle] at ends

/-- Names of which each is bound to the next as a reference, and the last one is the first. -/
def HasCycle (table : Bindings) : Prop :=
  ∃ (k : Nat) (names : Nat → Text), 0 < k ∧ names k = names 0 ∧ ∀ i < k,
    table.get? (names i) = some (names (i + 1)) ∧ isReference (names (i + 1)) = true

theorem Repeats.hasCycle (repeats : Repeats table start) : HasCycle table := by
  obtain ⟨i, j, name, before, first, second⟩ := id repeats
  choose names visited using repeats.endless
  have closed : names j = names i :=
    Option.some.inj ((visited j).symm.trans (second.trans (first.symm.trans (visited i))))
  refine ⟨j - i, fun l => names (i + l), Nat.sub_pos_of_lt before, ?_, ?_⟩
  · simpa [Nat.add_sub_cancel' (Nat.le_of_lt before)] using closed
  · intro l _
    exact next?_eq_some.mp ((visit_succ (visited (i + l))).symm.trans (visited (i + l + 1)))

/-- A cycle is met from the value of each of its names. -/
theorem HasCycle.repeats (cycle : HasCycle table) :
    ∃ name other, table.get? name = some other ∧ isReference other = true ∧ Repeats table other := by
  obtain ⟨k, names, positive, closed, each⟩ := cycle
  have visited : ∀ l < k, visit table (names 1) l = some (names (l + 1)) := by
    intro l
    induction l with
    | zero => exact fun _ => rfl
    | succ l ih =>
      intro inside
      rw [visit_succ (ih (Nat.lt_of_succ_lt inside))]
      exact next?_eq_some.mpr (each (l + 1) inside)
  obtain ⟨bound, reference⟩ := each 0 positive
  obtain ⟨last, rfl⟩ := Nat.exists_eq_add_one_of_ne_zero (Nat.ne_of_gt positive)
  refine ⟨names 0, names 1, bound, reference, 0, last + 1, names 1, positive, rfl, ?_⟩
  rw [visit_succ (visited last (Nat.lt_succ_self last)), closed]
  exact next?_eq_some.mpr ⟨bound, reference⟩

theorem terminal_eq_error {v : Variable} : (∃ path, terminal table v = .error path) ↔
    isReference v.value = true ∧ Repeats table v.value := by
  rw [← resolve_eq_cycle, terminal]
  split
  · rename_i reference
    cases resolve table v.value <;> simp [reference]
  · rename_i final
    simp [final]

theorem bindColors_eq_error {classifier : Classifier} {colors : Bindings}
    {declared : List Variable} : (∃ path, bindColors table classifier colors declared = .error path) ↔
      ∃ v ∈ declared, ∃ path, terminal table v = .error path := by
  induction declared generalizing colors with
  | nil => simp [bindColors]
  | cons v rest ih =>
    rw [List.exists_mem_cons_iff, bindColors]
    cases terminal table v with
    | error path => simp
    | ok value =>
      cases value with
      | none => simp [ih]
      | some value => simp [ih]

/-- Binding the colors fails just if the last values of the names hold a cycle. -/
theorem colors_eq_error (declared : List Variable) (classifier : Classifier) :
    (∃ path, colors declared classifier = .error path) ↔
      HasCycle (Bindings.ofVariables declared) := by
  rw [colors, bindColors_eq_error]
  constructor
  · rintro ⟨v, _, failed⟩
    exact (terminal_eq_error.mp failed).2.hasCycle
  · intro cycle
    obtain ⟨name, other, bound, reference, repeats⟩ := cycle.repeats
    rcases Bindings.get?_ofVariables declared name with ⟨missing, _⟩ |
      ⟨front, v, behind, whole, _, _, found⟩
    · exact absurd (bound.symm.trans missing) nofun
    · -- The walk that fails starts at the last declaration of the name.
      have same : other = v.value := Option.some.inj (bound.symm.trans found)
      exact ⟨v, by simp [whole], terminal_eq_error.mpr ⟨same ▸ reference, same ▸ repeats⟩⟩

end ColorTheme.Variable
