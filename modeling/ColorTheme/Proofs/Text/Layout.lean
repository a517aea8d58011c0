import ColorTheme.Proofs.Text.Run
import ColorTheme.Proofs.Text.Search
import ColorTheme.Substitution
import Mathlib.Data.List.Chain

/-!
Texts with places in them. A layout holds the characters of a text and places, and a spelling
says how each place is written. Bounded replacement of one spelling by another changes the
places and nothing else, if the old spellings begin with a mark, differ, and are not continued by
what follows them; so a sequence of replacements moves from one writing of a layout to another. -/
namespace ColorTheme.Text

/-- `needle` stands at the start of the text and no character continues it. -/
def Stands (needle : Text) (continues : Char → Bool) (text : Text) : Prop :=
  ∃ rest, text = needle ++ rest ∧ rest.head?.any continues = false

/-- A mark and characters that continue. -/
def Marked (mark : Char) (continues : Char → Bool) (needle : Text) : Prop :=
  ∃ tail, needle = mark :: tail ∧ ∀ c ∈ tail, continues c = true

instance (mark : Char) (continues : Char → Bool) :
    (needle : Text) → Decidable (Marked mark continues needle)
  | [] => isFalse fun ⟨_, empty, _⟩ => nomatch empty
  | c :: tail => decidable_of_iff (c = mark ∧ tail.all continues = true)
    ⟨fun ⟨same, inner⟩ => ⟨tail, same ▸ rfl, List.all_eq_true.mp inner⟩,
      fun ⟨_, whole, inner⟩ => by cases whole; exact ⟨rfl, List.all_eq_true.mpr inner⟩⟩

theorem Marked.mono {mark : Char} {inner outer : Char → Bool} {needle : Text}
    (marked : Marked mark inner needle) (wider : ∀ {c}, inner c = true → outer c = true) :
    Marked mark outer needle := by
  obtain ⟨tail, spelled, known⟩ := marked
  exact ⟨tail, spelled, fun c member => wider (known c member)⟩

section Bounded

variable {mark : Char} {continues : Char → Bool} {needle replacement : Text}

/-- A marked needle stands where its characters behind the mark are the run that follows it. -/
theorem stands_cons {tail : Text} (inner : ∀ c ∈ tail, continues c = true) {c : Char} {text : Text} :
    Stands (mark :: tail) continues (c :: text) ↔ c = mark ∧ text.takeWhile continues = tail := by
  constructor
  · rintro ⟨rest, whole, closed⟩
    obtain ⟨rfl, rfl⟩ := List.cons.inj whole
    exact ⟨rfl, (run_append inner closed).1⟩
  · rintro ⟨rfl, rfl⟩
    exact ⟨text.dropWhile continues, by simp, dropWhile_closed continues text⟩

theorem bounded_eq_some (marked : Marked mark continues needle) {before : Option Char}
    {here value left : Text} :
    bounded needle replacement continues before here = some (value, left) ↔
      here = needle ++ left ∧
        value = if left.head?.any continues then needle else replacement := by
  obtain ⟨tail, rfl, _⟩ := marked
  simp only [bounded, literal, List.isEmpty_cons, Bool.false_eq_true, if_false,
    Option.bind_eq_bind, Option.bind_eq_some_iff, Option.map_eq_some_iff, after?_eq_some]
  constructor
  · rintro ⟨_, ⟨rest, whole, rfl⟩, same⟩
    cases Option.some.inj same
    exact ⟨whole, rfl⟩
  · rintro ⟨whole, rfl⟩
    exact ⟨((), left), ⟨left, whole, rfl⟩, rfl⟩

theorem bounded_local (marked : Marked mark continues needle) :
    (bounded needle replacement continues).Local where
  blind _ _ _ := rfl
  covers found := by
    obtain ⟨tail, rfl, _⟩ := marked
    exact ⟨mark, tail, (bounded_eq_some ⟨tail, rfl, ‹_›⟩ |>.mp found).1⟩

theorem bounded_begins (marked : Marked mark continues needle) {c : Char} (rest : Text)
    (other : c ≠ mark) : bounded needle replacement continues none (c :: rest) = none := by
  rw [Option.eq_none_iff_forall_ne_some]
  rintro ⟨value, left⟩ found
  obtain ⟨tail, rfl, _⟩ := id marked
  exact other (List.cons.inj ((bounded_eq_some marked).mp found).1).1

theorem replaceBounded_stands (marked : Marked mark continues needle) {rest : Text}
    (closed : rest.head?.any continues = false) :
    replaceBounded needle replacement continues (needle ++ rest) =
      replacement ++ replaceBounded needle replacement continues rest := by
  have found : bounded needle replacement continues none (needle ++ rest) =
      some (replacement, rest) := (bounded_eq_some marked).mpr ⟨rfl, by simp [closed]⟩
  exact replaceBy_match (bounded_local marked) found

theorem replaceBounded_append (marked : Marked mark continues needle) {start : Text} (rest : Text)
    (other : ∀ c ∈ start, c ≠ mark) :
    replaceBounded needle replacement continues (start ++ rest) =
      start ++ replaceBounded needle replacement continues rest := by
  induction start with
  | nil => rfl
  | cons c start ih =>
    have missed : bounded needle replacement continues none (c :: (start ++ rest)) = none :=
      bounded_begins marked _ (other c List.mem_cons_self)
    have step := replaceBy_char (bounded_local marked) missed
    exact step.trans (congrArg (c :: ·) (ih fun d member => other d (List.mem_cons_of_mem c member)))

theorem replaceBounded_char (idle : continues mark = false) (marked : Marked mark continues needle)
    {c : Char} {rest : Text} (free : ¬ Stands needle continues (c :: rest)) :
    replaceBounded needle replacement continues (c :: rest) =
      c :: replaceBounded needle replacement continues rest := by
  cases known : bounded needle replacement continues none (c :: rest) with
  | none => exact replaceBy_char (bounded_local marked) known
  | some hit =>
    obtain ⟨value, left⟩ := hit
    have met := (bounded_eq_some marked).mp known
    have continued : left.head?.any continues = true := by
      by_contra closed
      exact free ⟨left, met.1, Bool.eq_false_iff.mpr closed⟩
    have kept : replaceBounded needle replacement continues (c :: rest) =
        needle ++ replaceBounded needle replacement continues left := by
      rw [met.2, if_pos continued] at known
      exact replaceBy_match (bounded_local marked) known
    -- The search passes over the whole needle, but no other match begins within it.
    obtain ⟨tail, rfl, inner⟩ := id marked
    obtain ⟨rfl, rfl⟩ := List.cons.inj met.1
    have other : ∀ d ∈ tail, d ≠ c := by
      rintro d member rfl
      exact Bool.false_ne_true (idle.symm.trans (inner d member))
    have tailKept : replaceBounded (c :: tail) replacement continues (tail ++ left) =
        tail ++ replaceBounded (c :: tail) replacement continues left :=
      replaceBounded_append marked left other
    rw [kept]
    exact congrArg (c :: ·) tailKept.symm

theorem replaceBounded_stretch (idle : continues mark = false)
    (marked : Marked mark continues needle) {start : Text} (rest : Text)
    (free : ∀ v, v ≠ [] → v <:+ start → ¬ Stands needle continues (v ++ rest)) :
    replaceBounded needle replacement continues (start ++ rest) =
      start ++ replaceBounded needle replacement continues rest := by
  induction start with
  | nil => rfl
  | cons c start ih =>
    have first := free (c :: start) (List.cons_ne_nil c start) (List.suffix_refl _)
    have later := ih fun v filled suffix => free v filled (suffix.trans (List.suffix_cons c start))
    exact (replaceBounded_char idle marked first).trans (congrArg (c :: ·) later)

/-- Of two different marked needles neither stands where the other one is closed. -/
theorem not_stands_of_ne (idle : continues mark = false) (marked : Marked mark continues needle)
    {other rest v : Text} (alike : Marked mark continues other) (apart : other ≠ needle)
    (closed : rest.head?.any continues = false) (filled : v ≠ []) (suffix : v <:+ other) :
    ¬ Stands needle continues (v ++ rest) := by
  rintro ⟨left, whole, ended⟩
  obtain ⟨t, rfl, inner⟩ := marked
  obtain ⟨u, rfl, others⟩ := alike
  rcases List.suffix_cons_iff.mp suffix with rfl | inside
  · -- Both start here, so one is a beginning of the other and is continued by it.
    have tails : u ++ rest = t ++ left := (List.cons.inj whole).2
    rcases List.append_eq_append_iff.mp tails with ⟨more, rfl, rfl⟩ | ⟨more, rfl, rfl⟩
    · cases more with
      | nil => simp at apart
      | cons d more => simp [inner d (by simp)] at closed
    · cases more with
      | nil => simp at apart
      | cons d more => simp [others d (by simp)] at ended
  · cases v with
    | nil => exact filled rfl
    | cons d v =>
      have same : d = mark := (List.cons.inj whole).1
      have continued := others d (inside.subset List.mem_cons_self)
      rw [same, idle] at continued
      contradiction

end Bounded

/-- A beginning that runs over into the second of two texts may run over into another one. -/
theorem prefix_append_congr {t s x y : Text} (reach : ∀ b, b <:+ t → b <+: x → b <+: y)
    (start : t <+: s ++ x) : t <+: s ++ y := by
  obtain ⟨more, whole⟩ := start
  rcases List.append_eq_append_iff.mp whole with ⟨b, rfl, rfl⟩ | ⟨b, rfl, beyond⟩
  · exact (List.prefix_append t b).trans (List.prefix_append (t ++ b) y)
  · exact (List.prefix_append_right_inj s).mpr (reach b (List.suffix_append s b) ⟨more, beyond.symm⟩)

/-- A text with places that may be written in several ways. -/
abbrev Layout (α : Type) := List (Char ⊕ α)

namespace Layout

def write (spell : α → Text) (l : Layout α) : Text := l.flatMap (Sum.elim ([·]) spell)

section Write

variable {spell : α → Text}

@[simp] theorem write_nil : write spell [] = [] := rfl

@[simp] theorem write_char (c : Char) (l : Layout α) :
    write spell (.inl c :: l) = c :: write spell l := rfl

@[simp] theorem write_place (p : α) (l : Layout α) :
    write spell (.inr p :: l) = spell p ++ write spell l := rfl

@[simp] theorem write_append (l k : Layout α) :
    write spell (l ++ k) = write spell l ++ write spell k := List.flatMap_append

@[simp] theorem write_chars (text : Text) :
    write spell (text.map Sum.inl) = text := by
  induction text with
  | nil => rfl
  | cons c text ih => simp [ih]

theorem write_flatten (parts : List (Layout α)) :
    write spell parts.flatten = parts.flatMap (write spell) := by
  induction parts with
  | nil => rfl
  | cons l parts ih => simp [ih]

theorem write_suffix {k l : Layout α} (suffix : k <:+ l) : write spell k <:+ write spell l := by
  obtain ⟨front, rfl⟩ := suffix
  exact ⟨write spell front, (write_append front k).symm⟩

theorem write_congr {other : α → Text} {l : Layout α}
    (same : ∀ p, .inr p ∈ l → spell p = other p) : write spell l = write other l := by
  refine List.flatMap_congr fun item member => ?_
  cases item with
  | inl c => rfl
  | inr p => exact same p member

theorem write_pieces {m : Matcher α} (skip : Nat) (before : Option Char) (text : Text)
    (covers : ∀ {before here value left}, m before here = some (value, left) →
      spell value ≠ [] ∧ here = spell value ++ left) :
    write spell (pieces m skip before text) = text.drop skip := by
  induction text generalizing skip before with
  | nil => cases skip <;> rfl
  | cons c rest ih =>
    cases skip with
    | succ skip => exact ih skip (some c)
    | zero =>
      simp only [pieces]
      split
      · rename_i value left found
        obtain ⟨filled, whole⟩ := covers found
        obtain ⟨d, used, spelled⟩ := List.exists_cons_of_ne_nil filled
        rw [spelled] at whole
        have covered : rest = used ++ left := (List.cons.inj whole).2
        have width : rest.length - left.length = used.length := by simp [covered]
        rw [width, write_place, ih, spelled, whole, covered]
        simp
      · simp [ih]

end Write

section Split

variable {spell : α → Text} {l : Layout α}

theorem eq_chars_write (spell : α → Text) (chars : ∀ p, .inr p ∉ l) :
    l = (write spell l).map .inl := by
  induction l with
  | nil => rfl
  | cons item l ih =>
    cases item with
    | inl c => exact congrArg (.inl c :: ·) (ih fun p member => chars p (List.mem_cons_of_mem _ member))
    | inr p => exact absurd List.mem_cons_self (chars p)

theorem mem_write {c : Char} (member : .inl c ∈ l) : c ∈ write spell l :=
  List.mem_flatMap.mpr ⟨.inl c, member, List.mem_singleton_self c⟩

theorem chars_of_write {mark : Char} {text rest : Text}
    (marked : ∀ p, .inr p ∈ l → ∃ tail, spell p = mark :: tail) (clean : mark ∉ text)
    (whole : write spell l = text ++ rest) :
    ∃ later, l = text.map .inl ++ later ∧ write spell later = rest := by
  induction text generalizing l with
  | nil => exact ⟨l, rfl, whole⟩
  | cons c text ih =>
    rw [List.mem_cons, not_or] at clean
    cases l with
    | nil => simp at whole
    | cons item l =>
      cases item with
      | inl d =>
        obtain ⟨rfl, inner⟩ := List.cons.inj whole
        have marked := fun p member => marked p (List.mem_cons_of_mem _ member)
        obtain ⟨later, rfl, written⟩ := ih marked clean.2 inner
        exact ⟨later, rfl, written⟩
      | inr p =>
        obtain ⟨tail, spelled⟩ := marked p List.mem_cons_self
        rw [write_place, spelled] at whole
        exact absurd (List.cons.inj whole).1 clean.1

/-- A character that no place holds is a character of the layout. -/
theorem split_char {c : Char} {front rest : Text} (foreign : ∀ p, .inr p ∈ l → c ∉ spell p)
    (whole : write spell l = front ++ c :: rest) : ∃ start later,
      l = start ++ .inl c :: later ∧ write spell start = front ∧ write spell later = rest := by
  induction l generalizing front with
  | nil => simp at whole
  | cons item l ih =>
    have later := fun front h => @ih front (fun p member => foreign p (List.mem_cons_of_mem _ member)) h
    cases item with
    | inl d =>
      cases front with
      | nil =>
        obtain ⟨rfl, written⟩ := List.cons.inj whole
        exact ⟨[], l, rfl, rfl, written⟩
      | cons e front =>
        obtain ⟨rfl, inner⟩ := List.cons.inj whole
        obtain ⟨start, rest, rfl, rfl, written⟩ := later front inner
        exact ⟨.inl d :: start, rest, rfl, rfl, written⟩
    | inr p =>
      rw [write_place] at whole
      rcases List.append_eq_append_iff.mp whole with ⟨behind, rfl, inner⟩ | ⟨within, spelled, inner⟩
      · obtain ⟨start, rest, rfl, rfl, written⟩ := later behind inner
        exact ⟨.inr p :: start, rest, rfl, rfl, written⟩
      · cases within with
        | nil =>
          obtain ⟨start, rest, rfl, empty, written⟩ := later [] inner.symm
          exact ⟨.inr p :: start, rest, rfl, by simp [empty, spelled], written⟩
        | cons d within =>
          obtain ⟨rfl, _⟩ := List.cons.inj inner
          exact absurd (by simp [spelled]) (foreign p List.mem_cons_self)

end Split

/-- What may follow a place, however places are spelled: a character that does not continue, or
a place that begins with one. -/
def Closes (continues : Char → Bool) (old new : α → Text) : Char ⊕ α → Prop
  | .inl c => continues c = false
  | .inr p => ∀ spelled, spelled = old p ∨ spelled = new p →
      ∃ c tail, spelled = c :: tail ∧ continues c = false

/-- No place is continued by what follows it. -/
def Apart (continues : Char → Bool) (old new : α → Text) (l : Layout α) : Prop :=
  l.IsChain fun item next => item.isRight = true → Closes continues old new next

/-- Every place is written in one of two ways. -/
def Between (old new : α → Text) (l : Layout α) (spell : α → Text) : Prop :=
  ∀ p, .inr p ∈ l → spell p = old p ∨ spell p = new p

section Replace

variable {mark : Char} {continues : Char → Bool} {old new spell : α → Text} {l : Layout α} {p : α}

theorem Closes.swap {item : Char ⊕ α} (closes : Closes continues old new item) :
    Closes continues new old item := by
  cases item with
  | inl c => exact closes
  | inr p => exact fun spelled either => closes spelled either.symm

theorem Between.suffix {k : Layout α} (between : Between old new l spell) (suffix : k <:+ l) :
    Between old new k spell := fun p member => between p (suffix.subset member)

theorem Apart.closed (apart : Apart continues old new l) (between : Between old new l spell)
    {rest : Layout α} (suffix : .inr p :: rest <:+ l) :
    (write spell rest).head?.any continues = false := by
  have chain := (List.isChain_cons.mp (List.IsChain.suffix apart suffix)).1
  cases rest with
  | nil => rfl
  | cons item rest =>
    have closes := chain item rfl rfl
    cases item with
    | inl c => simpa [Closes] using closes
    | inr q =>
      have member : .inr q ∈ l := suffix.subset (by simp)
      obtain ⟨c, tail, spelled, stops⟩ := closes (spell q) (between q member)
      simp [spelled, stops]

theorem apart_chars (text : Text) (apart : Apart continues old new l) :
    Apart continues old new (text.map Sum.inl ++ l) := by
  induction text with
  | nil => exact apart
  | cons c text ih => exact List.isChain_cons.mpr ⟨fun item _ place => (nomatch place), ih⟩

theorem apart_flatten {parts : List (Layout α)} (each : ∀ l ∈ parts, Apart continues old new l)
    (ends : parts.IsChain fun l _ => ∀ p, l.getLast? ≠ some (.inr p)) :
    Apart continues old new parts.flatten := by
  induction parts with
  | nil => exact List.isChain_nil
  | cons l parts ih =>
    obtain ⟨closed, ends⟩ := List.isChain_cons.mp ends
    have later := ih (fun k member => each k (List.mem_cons_of_mem l member)) ends
    refine List.isChain_append.mpr ⟨each l List.mem_cons_self, later, ?_⟩
    intro item last next _ place
    obtain ⟨p, rfl⟩ := Sum.isRight_iff.mp place
    cases parts with
    | nil => contradiction
    | cons k parts => exact absurd last (closed k rfl p)

/-- The run at the start of a layout does not depend on the spelling, if no place begins with a
character of such a run. -/
theorem takeWhile_write (opens : ∀ p, .inr p ∈ l → Closes continues old new (.inr p))
    (between : Between old new l spell) :
    (write spell l).takeWhile continues = (write old l).takeWhile continues := by
  induction l with
  | nil => rfl
  | cons item l ih =>
    cases item with
    | inl c =>
      have later := ih (fun p member => opens p (List.mem_cons_of_mem _ member))
        (between.suffix (List.suffix_cons _ l))
      simp only [write_char, List.takeWhile_cons, later]
    | inr p =>
      have closes := opens p List.mem_cons_self
      obtain ⟨c, tail, spelled, stops⟩ := closes (spell p) (between p List.mem_cons_self)
      obtain ⟨d, rest, before, idle⟩ := closes (old p) (.inl rfl)
      simp [spelled, before, stops, idle]

/-- What is written without a mark at the start of a layout reaches into no old spelling, so it
also starts the text in the new ones. -/
theorem prefix_write_new (alike : ∀ q, .inr q ∈ l → Marked mark continues (old q))
    (between : Between old new l spell) {t : Text} (clean : mark ∉ t) (start : t <+: write spell l) :
    t <+: write new l := by
  -- On the layout; the text gets shorter with it where a place in the new spelling covers it.
  induction l generalizing t with
  | nil => exact start
  | cons item l ih =>
    have later : ∀ {b : Text}, mark ∉ b → b <+: write spell l → b <+: write new l :=
      ih (fun q h => alike q (List.mem_cons_of_mem item h))
        (between.suffix (List.suffix_cons item l))
    cases item with
    | inl c =>
      cases t with
      | nil => exact List.nil_prefix
      | cons d t =>
        obtain ⟨same, start⟩ := List.cons_prefix_cons.mp start
        have inner := later (fun h => clean (List.mem_cons_of_mem d h)) start
        exact List.cons_prefix_cons.mpr ⟨same, inner⟩
    | inr q =>
      rcases between q List.mem_cons_self with same | same
      · obtain ⟨tail, spelled, _⟩ := alike q List.mem_cons_self
        rw [write_place, same, spelled] at start
        cases t with
        | nil => exact List.nil_prefix
        | cons d t =>
          have first : d = mark := (List.cons_prefix_cons.mp start).1
          exact absurd (first ▸ List.mem_cons_self) clean
      · rw [write_place, same] at start
        exact prefix_append_congr
          (fun b inside h => later (fun m => clean (inside.subset m)) h) start

variable [DecidableEq α]

/-- One replacement respells one place. -/
theorem replaceBounded_write {replacement : Text} (idle : continues mark = false)
    (marked : Marked mark continues (spell p))
    (closed : ∀ rest, .inr p :: rest <:+ l → (write spell rest).head?.any continues = false)
    (char : ∀ c rest, .inl c :: rest <:+ l →
      ¬ Stands (spell p) continues (c :: write spell rest))
    (place : ∀ q rest, q ≠ p → .inr q :: rest <:+ l → ∀ v, v ≠ [] → v <:+ spell q →
      ¬ Stands (spell p) continues (v ++ write spell rest)) :
    replaceBounded (spell p) replacement continues (write spell l) =
      write (fun q => if q = p then replacement else spell q) l := by
  induction l with
  | nil => rfl
  | cons item l ih =>
    have grow : ∀ {k : Layout α}, k <:+ l → k <:+ item :: l :=
      fun suffix => suffix.trans (List.suffix_cons item l)
    have rest := ih (fun k h => closed k (grow h)) (fun c k h => char c k (grow h))
      (fun q k other h => place q k other (grow h))
    cases item with
    | inl c =>
      rw [write_char, replaceBounded_char idle marked (char c l (List.suffix_refl _)), rest]
      rfl
    | inr q =>
      by_cases same : q = p
      · subst same
        rw [write_place, replaceBounded_stands marked (closed l (List.suffix_refl _)), rest]
        simp
      · have free := place q l same (List.suffix_refl _)
        rw [write_place, replaceBounded_stretch idle marked _ free, rest]
        simp [same]

/-- Replacing the old spelling of a place by the new one respells that place, whatever places
were respelled before. -/
def Settles (continues : Char → Bool) (old new : α → Text) (l : Layout α) (p : α) : Prop :=
  ∀ spell, Between old new l spell → spell p = old p →
    replaceBounded (old p) (new p) continues (write spell l) =
      write (fun q => if q = p then new p else spell q) l

/-- Replacements one after another respell all their places. -/
theorem foldl_settles {places : List α} (distinct : places.Nodup)
    (settles : ∀ p ∈ places, Settles continues old new l p) (between : Between old new l spell)
    (unchanged : ∀ p ∈ places, spell p = old p) :
    places.foldl (fun text p => replaceBounded (old p) (new p) continues text) (write spell l) =
      write (fun q => if q ∈ places then new q else spell q) l := by
  -- The spelling changes with every replacement and stays between the old and the new one.
  induction places generalizing spell with
  | nil => simp
  | cons p places ih =>
    obtain ⟨fresh, distinct⟩ := List.nodup_cons.mp distinct
    have step := settles p List.mem_cons_self spell between (unchanged p List.mem_cons_self)
    rw [List.foldl_cons, step, ih distinct fun q member => settles q (List.mem_cons_of_mem p member)]
    · refine write_congr fun q _ => ?_
      by_cases later : q ∈ places
      · simp [later]
      · by_cases same : q = p <;> simp [later, same]
    · intro q member
      by_cases same : q = p
      · simp [same]
      · simpa [same] using between q member
    · intro q member
      have other : q ≠ p := fun same => fresh (same ▸ member)
      simpa [other] using unchanged q (List.mem_cons_of_mem p member)

section Settles

variable (idle : continues mark = false) (marked : Marked mark continues (old p))
  (alike : ∀ q, .inr q ∈ l → Marked mark continues (old q))
  (distinct : ∀ q, .inr q ∈ l → q ≠ p → old q ≠ old p) (apart : Apart continues old new l)

include idle marked alike distinct apart

/-- A place settles if its old spelling stands at no character and in no new spelling. -/
theorem settles_of_free
    (char : ∀ spell, Between old new l spell → ∀ c rest, .inl c :: rest <:+ l →
      ¬ Stands (old p) continues (c :: write spell rest))
    (place : ∀ spell, Between old new l spell → ∀ q rest, .inr q :: rest <:+ l →
      ∀ v, v ≠ [] → v <:+ new q → ¬ Stands (old p) continues (v ++ write spell rest)) :
    Settles continues old new l p := by
  intro spell between unchanged
  rw [← unchanged] at marked ⊢
  refine replaceBounded_write idle marked (fun rest suffix => apart.closed between suffix) ?_ ?_
  · rw [unchanged]
    exact char spell between
  · intro q rest other suffix v filled inside
    have member : .inr q ∈ l := suffix.subset List.mem_cons_self
    rw [unchanged] at marked ⊢
    rcases between q member with same | same
    · rw [same] at inside
      exact not_stands_of_ne idle marked (alike q member) (distinct q member other)
        (apart.closed between suffix) filled inside
    · rw [same] at inside
      exact place spell between q rest suffix v filled inside

/-- A place settles if its mark is in no new spelling and no character begins its old one. -/
theorem settles_of_foreign (foreign : ∀ q, .inr q ∈ l → mark ∉ new q)
    (char : ∀ spell, Between old new l spell → ∀ c rest, .inl c :: rest <:+ l →
      ¬ Stands (old p) continues (c :: write spell rest)) :
    Settles continues old new l p := by
  refine settles_of_free idle marked alike distinct apart char ?_
  rintro spell between q rest suffix v filled inside ⟨left, whole, _⟩
  obtain ⟨tail, spelled, _⟩ := marked
  obtain ⟨d, v, rfl⟩ := List.exists_cons_of_ne_nil filled
  rw [spelled] at whole
  have first : d = mark := (List.cons.inj whole).1
  exact foreign q (suffix.subset List.mem_cons_self) (first ▸ inside.subset List.mem_cons_self)

/-- A place settles if its old spelling occurs nowhere in the text in the new ones. -/
theorem settles_of_absent (absent : ¬ old p <:+: write new l) : Settles continues old new l p := by
  have free : ∀ spell, Between old new l spell → ∀ v rest, v ≠ [] → rest <:+ l →
      v ++ write new rest <:+ write new l → ¬ Stands (old p) continues (v ++ write spell rest) := by
    rintro spell between v rest filled reach suffix ⟨left, whole, _⟩
    obtain ⟨t, spelled, inner⟩ := marked
    have clean : mark ∉ t := fun h => Bool.false_ne_true (idle.symm.trans (inner mark h))
    have start : old p <+: v ++ write spell rest := ⟨left, whole.symm⟩
    -- Behind its mark the old spelling meets only what is written alike in the new ones.
    have found : old p <+: v ++ write new rest := by
      obtain ⟨d, v, rfl⟩ := List.exists_cons_of_ne_nil filled
      rw [spelled] at start ⊢
      obtain ⟨same, start⟩ := List.cons_prefix_cons.mp start
      refine List.cons_prefix_cons.mpr ⟨same, prefix_append_congr (fun b inside h => ?_) start⟩
      exact prefix_write_new (fun q h => alike q (reach.subset h)) (between.suffix reach)
        (fun h => clean (inside.subset h)) h
    exact absent (found.isInfix.trans suffix.isInfix)
  have behind : ∀ {item rest}, item :: rest <:+ l → rest <:+ l :=
    fun suffix => (List.suffix_cons _ _).trans suffix
  refine settles_of_free idle marked alike distinct apart ?_ ?_
  · intro spell between c rest suffix
    exact free spell between [c] rest (List.cons_ne_nil c []) (behind suffix) (write_suffix suffix)
  · rintro spell between q rest suffix v filled ⟨front, whole⟩
    have within : v ++ write new rest <:+ write new (.inr q :: rest) :=
      ⟨front, by rw [write_place, ← whole, List.append_assoc]⟩
    exact free spell between v rest filled (behind suffix) (within.trans (write_suffix suffix))

end Settles

end Replace

end Layout
end ColorTheme.Text
