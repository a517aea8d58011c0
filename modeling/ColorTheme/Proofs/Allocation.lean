import ColorTheme.Proofs.Bindings
import ColorTheme.Proofs.Escape

/-!
One allocator and all that ask it for colors. Colors are issued alone, for the variables of a map
and for escaped calls, in any order; no color is issued twice, whoever asked for it, so a map can
be read backward and its sentinels stand for no call. -/
namespace ColorTheme

namespace Allocator

/-- What holds of the issued colors, however many there are. -/
structure Sound (a : Allocator) : Prop where
  distinct : a.issued.Nodup
  colored : ∀ color ∈ a.issued, IsColor color ∧ color ∉ reservedColors

theorem sound_start (draws : Draws) : Sound { draws } :=
  ⟨List.nodup_nil, nofun⟩

theorem Issues.sound {a b : Allocator} {color : Text} (issues : a.Issues color b)
    (sound : a.Sound) : b.Sound := by
  constructor
  · rw [issues.recorded]
    exact List.nodup_cons.mpr ⟨issues.fresh, sound.distinct⟩
  · rw [issues.recorded]
    exact List.forall_mem_cons.mpr ⟨⟨issues.colored, issues.unreserved⟩, sound.colored⟩

end Allocator

namespace SentinelMap

theorem get?_eq_some {m : SentinelMap} (distinct : (m.entries.map Prod.fst).Nodup)
    {name sentinel : Text} : m.get? name = some sentinel ↔ (name, sentinel) ∈ m.entries := by
  refine ⟨fun found => ?_, fun member => Bindings.lookup_of_mem distinct member⟩
  obtain ⟨front, behind, whole, _⟩ := List.lookup_eq_some_iff.mp found
  simp [whole]

theorem get?_give (m : SentinelMap) (name sentinel other : Text) :
    (m.give name sentinel).get? other =
      (m.get? other).or (if other = name then some sentinel else none) := by
  have single : [(name, sentinel)].lookup other = if other = name then some sentinel else none := by
    by_cases same : other = name
    · simp [same]
    · simp [List.lookup_cons, same, beq_eq_false_iff_ne.mpr same]
  rw [get?, give_entries, List.lookup_append, single, get?]

theorem variableFor?_give (m : SentinelMap) (name sentinel other : Text) :
    (m.give name sentinel).variableFor? other =
      if other = sentinel then some name else m.variableFor? other :=
  Bindings.lookup_put sentinel other name m.bySentinel.entries

/-- The table leads back from a sentinel just to the name that has it. -/
def Inverse (m : SentinelMap) : Prop :=
  ∀ name sentinel, m.get? name = some sentinel ↔ m.variableFor? sentinel = some name

theorem Inverse.give {m : SentinelMap} (inverse : m.Inverse) {name sentinel : Text}
    (new : m.get? name = none) (unused : m.variableFor? sentinel = none) :
    (m.give name sentinel).Inverse := by
  intro other mark
  rw [get?_give, variableFor?_give]
  by_cases named : other = name
  · subst named
    have unmarked : m.variableFor? mark ≠ some other := by
      rw [ne_eq, ← inverse, new]
      nofun
    by_cases marked : mark = sentinel
    · simp [new, marked]
    · simp [new, marked, unmarked, Ne.symm marked]
  · by_cases marked : mark = sentinel
    · subst marked
      have unnamed : m.get? other ≠ some mark := by
        rw [ne_eq, inverse, unused]
        nofun
      simp [named, unnamed, Ne.symm named]
    · simp [named, marked, inverse other mark]

/-- The sentinels that were issued for a map: all but the fixed one. -/
def issued (m : SentinelMap) : List Text :=
  (m.entries.filter fun entry => entry.1 ≠ primaryVariable).map Prod.snd

/-- A map whose sentinels were issued one after another since `start`. -/
structure Given (start : Allocator) (m : SentinelMap) (a : Allocator) : Prop where
  recorded : a.issued = m.issued.reverse ++ start.issued
  sound : a.Sound
  primary : ∀ sentinel, (primaryVariable, sentinel) ∈ m.entries → sentinel = primarySentinel
  inverse : m.Inverse

section Given

variable {start a b : Allocator} {m : SentinelMap} {name color : Text} (given : Given start m a)

include given

theorem Given.mem_issued {entry : Text × Text} (member : entry ∈ m.entries) :
    (entry.1 = primaryVariable ∧ entry.2 = primarySentinel) ∨
      (entry.1 ≠ primaryVariable ∧ entry.2 ∈ m.issued) := by
  by_cases primary : entry.1 = primaryVariable
  · exact .inl ⟨primary, given.primary entry.2 (primary ▸ member)⟩
  · exact .inr ⟨primary, List.mem_map_of_mem (List.mem_filter.mpr ⟨member, by simpa using primary⟩)⟩

theorem Given.mem_issued_or {entry : Text × Text} (member : entry ∈ m.entries) :
    entry.2 ∈ primarySentinel :: m.issued := by
  rcases given.mem_issued member with ⟨_, fixed⟩ | ⟨_, issued⟩
  · exact List.mem_cons.mpr (.inl fixed)
  · exact List.mem_cons_of_mem _ issued

theorem Given.unreserved (member : color ∈ m.issued) : color ≠ primarySentinel := by
  rintro rfl
  have listed : primarySentinel ∈ a.issued := by
    rw [given.recorded]
    exact List.mem_append_left _ (List.mem_reverse.mpr member)
  exact (given.sound.colored primarySentinel listed).2 (by decide)

/-- A color leads back to no name if it was issued for none and is not the fixed sentinel in use. -/
theorem Given.variableFor?_eq_none (unissued : color ∉ m.issued)
    (unfixed : color = primarySentinel → primaryVariable ∉ m.entries.map Prod.fst) :
    m.variableFor? color = none := by
  rw [Option.eq_none_iff_forall_ne_some]
  intro name found
  have known := (given.inverse name color).mpr found
  obtain ⟨front, behind, whole, _⟩ := List.lookup_eq_some_iff.mp known
  have listed : (name, color) ∈ m.entries := by simp [whole]
  rcases given.mem_issued listed with ⟨rfl, fixed⟩ | ⟨_, taken⟩
  · exact unfixed fixed (List.mem_map_of_mem listed)
  · exact unissued taken

theorem Given.primary_given (fresh : primaryVariable ∉ m.entries.map Prod.fst) :
    Given start (m.give primaryVariable primarySentinel) a where
  recorded := by simp [issued, given.recorded]
  sound := given.sound
  primary sentinel member := by
    rcases List.mem_append.mp member with earlier | last
    · exact absurd (List.mem_map_of_mem earlier) fresh
    · exact congrArg Prod.snd (List.mem_singleton.mp last)
  inverse :=
    have unissued : primarySentinel ∉ m.issued := fun taken => given.unreserved taken rfl
    given.inverse.give (get?_eq_none.mpr fresh) (given.variableFor?_eq_none unissued fun _ => fresh)

theorem Given.issued_given (fresh : name ∉ m.entries.map Prod.fst) (other : name ≠ primaryVariable)
    (issues : a.Issues color b) : Given start (m.give name color) b where
  recorded := by simp [issued, other, issues.recorded, given.recorded]
  sound := issues.sound given.sound
  primary sentinel member := by
    rcases List.mem_append.mp member with earlier | last
    · exact given.primary sentinel earlier
    · exact absurd (congrArg Prod.fst (List.mem_singleton.mp last)).symm other
  inverse := by
    have unissued : color ∉ m.issued := fun taken => issues.fresh (given.recorded ▸
      List.mem_append_left _ (List.mem_reverse.mpr taken))
    refine given.inverse.give (get?_eq_none.mpr fresh) (given.variableFor?_eq_none unissued ?_)
    rintro rfl
    exact absurd (by decide) issues.unreserved

end Given

theorem assign_given {names : List Text} {start b : Allocator} {m : SentinelMap}
    (assigned : assign names start = some (m, b)) (sound : start.Sound) : Given start m b := by
  refine assignFrom_induction (P := Given start) assigned ⟨rfl, sound, nofun, ?_⟩ ?_ ?_
  · exact fun name sentinel => ⟨nofun, nofun⟩
  · exact fun m a _ fresh given => given.primary_given fresh
  · exact fun m a name color b _ fresh other issues given => given.issued_given fresh other issues

theorem assignFrom_names {names : List Text} (done : List Text) {m after : SentinelMap}
    {a b : Allocator} (assigned : assignFrom m a names = some (after, b))
    (known : m.entries.map Prod.fst = done.eraseDups) :
    after.entries.map Prod.fst = (done ++ names).eraseDups := by
  induction names generalizing m a done with
  | nil =>
    cases assigned
    simpa using known
  | cons name rest ih =>
    have member : name ∈ m.entries.map Prod.fst ↔ name ∈ done := by
      rw [known, List.mem_eraseDups]
    have step := fun m a => ih (done ++ [name]) (m := m) (a := a)
    simp only [List.append_assoc, List.singleton_append] at step
    unfold assignFrom at assigned
    split at assigned
    · rename_i given
      have old : name ∈ done := by
        by_contra new
        rw [get?_eq_none.mpr (new ∘ member.mp)] at given
        contradiction
      exact step m a assigned (by rw [eraseDups_concat_of_mem old, known])
    · rename_i missing
      have new := get?_eq_none.mp (Option.not_isSome_iff_eq_none.mp missing)
      have longer : ∀ sentinel,
          (m.give name sentinel).entries.map Prod.fst = (done ++ [name]).eraseDups := by
        intro sentinel
        simp [eraseDups_concat (new ∘ member.mpr), known]
      split at assigned
      · exact step _ _ assigned (longer primarySentinel)
      · obtain ⟨⟨color, next⟩, _, later⟩ := Option.bind_eq_some_iff.mp assigned
        exact step _ _ later (longer color)

/-- What a map does: each name of the list once, in the order in which they were met, the fixed
sentinel for the primary variable alone, and a table that leads back from every sentinel. -/
structure Assigns (names : List Text) (m : SentinelMap) : Prop where
  ordered : m.entries.map Prod.fst = names.eraseDups
  primary : ∀ name, m.get? name = some primarySentinel ↔ name = primaryVariable ∧ name ∈ names
  back : ∀ name ∈ names, ∃ sentinel, m.get? name = some sentinel ∧
    m.variableFor? sentinel = some name
  inverse : m.Inverse

theorem Given.assigns {start a : Allocator} {m : SentinelMap} (given : Given start m a)
    {names : List Text} (distinct : (m.entries.map Prod.fst).Nodup)
    (ordered : m.entries.map Prod.fst = names.eraseDups) : Assigns names m where
  ordered := ordered
  primary name := by
    have member : name ∈ names ↔ name ∈ m.entries.map Prod.fst := by
      rw [ordered, List.mem_eraseDups]
    rw [get?_eq_some distinct, member]
    constructor
    · intro found
      rcases given.mem_issued found with ⟨primary, _⟩ | ⟨_, issued⟩
      · exact ⟨primary, List.mem_map_of_mem found⟩
      · exact absurd rfl (given.unreserved issued)
    · rintro ⟨rfl, known⟩
      obtain ⟨⟨_, sentinel⟩, found, rfl⟩ := List.mem_map.mp known
      obtain rfl := given.primary sentinel found
      exact found
  back name member := by
    have known : name ∈ m.entries.map Prod.fst := by rwa [ordered, List.mem_eraseDups]
    obtain ⟨⟨_, sentinel⟩, found, rfl⟩ := List.mem_map.mp known
    have found := (get?_eq_some distinct).mpr found
    exact ⟨sentinel, found, (given.inverse _ sentinel).mp found⟩
  inverse := given.inverse

end SentinelMap

namespace EscapedCalls

/-- The calls to escape in a source, as they are met. -/
def escapable (symbols : Bindings) (source : Text) : List Text :=
  met symbols (Text.pieces call 0 none source)

/-- What escaped calls are: sentinels and calls in pairs, in which no sentinel and no call comes
twice, in the order in which the calls were met. -/
structure Pairs (symbols : Bindings) (source : Text) (calls : EscapedCalls) : Prop where
  sentinels : (calls.entries.map Prod.fst).Nodup
  texts : (calls.entries.map Prod.snd).Nodup
  ordered : calls.entries.map Prod.snd = (escapable symbols source).eraseDups

/-- Calls noted since `start`, after the calls `done` were met. -/
structure Noted (start : Allocator) (done : List Text) (calls : EscapedCalls) (a : Allocator) :
    Prop where
  ordered : calls.entries.map Prod.snd = done.eraseDups
  recorded : a.issued = (calls.entries.map Prod.fst).reverse ++ start.issued
  sound : a.Sound

section Noted

variable {start a b : Allocator} {done : List Text} {calls : EscapedCalls} {text sentinel : Text}
  (noted : Noted start done calls a)

include noted

theorem Noted.sentinelFor?_eq_none : calls.sentinelFor? text = none ↔ text ∉ done := by
  rw [EscapedCalls.sentinelFor?_eq_none, noted.ordered, List.mem_eraseDups]

theorem Noted.again (known : calls.sentinelFor? text = some sentinel) :
    Noted start (done ++ [text]) calls a where
  ordered := by
    have old : text ∈ done := by
      by_contra new
      rw [noted.sentinelFor?_eq_none.mpr new] at known
      contradiction
    rw [eraseDups_concat_of_mem old, noted.ordered]
  recorded := noted.recorded
  sound := noted.sound

theorem Noted.append (new : calls.sentinelFor? text = none) (issues : a.Issues sentinel b) :
    Noted start (done ++ [text]) ⟨calls.entries ++ [(sentinel, text)]⟩ b where
  ordered := by simp [eraseDups_concat (noted.sentinelFor?_eq_none.mp new), noted.ordered]
  recorded := by simp [issues.recorded, noted.recorded]
  sound := issues.sound noted.sound

end Noted

theorem Assembly.noted {symbols : Bindings} {start a b : Allocator} {done : List Text}
    {calls after : EscapedCalls} {found : Text.Layout (Text × Text)} {written : Text}
    (assembly : Assembly symbols calls a found written after b) (noted : Noted start done calls a) :
    Noted start (done ++ met symbols found) after b := by
  induction assembly generalizing done with
  | nil => simpa [met] using noted
  | char c _ ih => exact ih noted
  | kept kept _ ih => simpa [met, kept] using ih noted
  | known escapable known _ ih => simpa [met, escapable] using ih (noted.again known)
  | new escapable new issues _ ih => simpa [met, escapable] using ih (noted.append new issues)

theorem escape_noted {source text : Text} {symbols : Bindings} {start b : Allocator}
    {calls : EscapedCalls} (escaped : escape source symbols start = some (text, calls, b))
    (sound : start.Sound) : Noted start (escapable symbols source) calls b :=
  have opening : Noted start [] {} start := ⟨rfl, rfl, sound⟩
  (escape_assembly escaped).noted opening

end EscapedCalls

namespace Allocator

/-- What an allocator may be asked for. -/
inductive Call
  | next
  | assign (names : List Text)
  | escape (source : Text) (symbols : Bindings)

/-- What comes back, with what was asked for. -/
inductive Answer
  | color (color : Text)
  | map (names : List Text) (m : SentinelMap)
  | calls (source : Text) (symbols : Bindings) (escaped : EscapedCalls)

def Answer.call : Answer → Call
  | .color _ => .next
  | .map names _ => .assign names
  | .calls source symbols _ => .escape source symbols

def Call.run (a : Allocator) : Call → Option (Answer × Allocator)
  | .next => a.next.map fun (color, a) => (.color color, a)
  | .assign names => (SentinelMap.assign names a).map fun (m, a) => (.map names m, a)
  | .escape source symbols =>
    (EscapedCalls.escape source symbols a).map fun (_, calls, a) => (.calls source symbols calls, a)

/-- The answers to some calls, up to the first that has none. -/
def run (a : Allocator) : List Call → List Answer × Allocator
  | [] => ([], a)
  | call :: rest =>
    match call.run a with
    | none => ([], a)
    | some (answer, b) =>
      let (answers, last) := run b rest
      (answer :: answers, last)

def Answer.issued : Answer → List Text
  | .color c => [c]
  | .map _ m => m.issued
  | .calls _ _ escaped => escaped.entries.map Prod.fst

def Answer.Fits : Answer → Prop
  | .color _ => True
  | .map names m => m.Assigns names ∧ ∀ entry ∈ m.entries, entry.2 ∈ primarySentinel :: m.issued
  | .calls source symbols escaped => escaped.Pairs symbols source

/-- What answering does, in one call or in many. -/
structure Answered (a : Allocator) (answers : List Answer) (b : Allocator) : Prop where
  sound : b.Sound
  recorded : b.issued = (answers.flatMap Answer.issued).reverse ++ a.issued
  fits : ∀ answer ∈ answers, answer.Fits

theorem Call.run_answered {call : Call} {a b : Allocator} {answer : Answer}
    (ran : call.run a = some (answer, b)) (sound : a.Sound) :
    answer.call = call ∧ Answered a [answer] b := by
  cases call with
  | next =>
    obtain ⟨⟨color, b⟩, issued, same⟩ := Option.map_eq_some_iff.mp ran
    cases same
    have issues := next_issues issued
    exact ⟨rfl, issues.sound sound, issues.recorded, by simp [Answer.Fits]⟩
  | assign names =>
    obtain ⟨⟨m, b⟩, assigned, same⟩ := Option.map_eq_some_iff.mp ran
    cases same
    have given := SentinelMap.assign_given assigned sound
    have ordered := SentinelMap.assignFrom_names [] assigned rfl
    have distinct := (SentinelMap.assign_assigned assigned).distinct
    refine ⟨rfl, given.sound, ?_, ?_⟩
    · simpa [Answer.issued] using given.recorded
    · rw [List.forall_mem_singleton]
      exact ⟨given.assigns distinct ordered, fun _ member => given.mem_issued_or member⟩
  | escape source symbols =>
    obtain ⟨⟨text, calls, b⟩, escaped, same⟩ := Option.map_eq_some_iff.mp ran
    cases same
    have noted := EscapedCalls.escape_noted escaped sound
    have recorded := (EscapedCalls.escape_assembles escaped).recorded
    refine ⟨rfl, noted.sound, ?_, ?_⟩
    · simpa [Answer.issued] using noted.recorded
    · rw [List.forall_mem_singleton]
      exact ⟨recorded.distinctSentinels, recorded.distinctCalls, noted.ordered⟩

theorem run_answered (calls : List Call) {a : Allocator} (sound : a.Sound) :
    (run a calls).1.map Answer.call <+: calls ∧ Answered a (run a calls).1 (run a calls).2 := by
  induction calls generalizing a with
  | nil => exact ⟨List.nil_prefix, sound, rfl, nofun⟩
  | cons call rest ih =>
    unfold run
    split
    · exact ⟨List.nil_prefix, sound, rfl, nofun⟩
    · rename_i answer b ran
      obtain ⟨rfl, first⟩ := call.run_answered ran sound
      obtain ⟨asked, later⟩ := ih first.sound
      refine ⟨(List.prefix_cons_inj _).mpr asked, later.sound, ?_, ?_⟩
      · rw [later.recorded, first.recorded]
        simp
      · exact List.forall_mem_cons.mpr ⟨List.forall_mem_singleton.mp first.fits, later.fits⟩

/-- How many colors a call may take. -/
def Call.demand : Call → Nat
  | .next => 1
  | .assign names => names.length
  | .escape source symbols => (EscapedCalls.escapable symbols source).length

theorem Call.run_left (call : Call) {count : Nat} {a : Allocator}
    (left : a.Left (call.demand + count)) :
    ∃ answer b, call.run a = some (answer, b) ∧ b.Left count := by
  cases call with
  | next =>
    have one : a.Left (count + 1) := by rwa [Nat.add_comm]
    obtain ⟨color, b, issued, left⟩ := one.next
    exact ⟨.color color, b, by rw [run, issued]; rfl, left⟩
  | assign names =>
    obtain ⟨m, b, assigned, left⟩ := SentinelMap.assignFrom_left {} left
    refine ⟨.map names m, b, ?_, left⟩
    rw [run, SentinelMap.assign, assigned]
    rfl
  | escape source symbols =>
    obtain ⟨⟨text, calls, b⟩, escaped, left⟩ := EscapedCalls.assemble_left {} left
    refine ⟨.calls source symbols calls, b, ?_, left⟩
    rw [run, EscapedCalls.escape, escaped]
    rfl

theorem run_left {calls : List Call} {a : Allocator} (left : a.Left (calls.map Call.demand).sum) :
    (run a calls).1.length = calls.length := by
  induction calls generalizing a with
  | nil => rfl
  | cons call rest ih =>
    rw [List.map_cons, List.sum_cons] at left
    obtain ⟨answer, b, ran, left⟩ := call.run_left left
    unfold run
    rw [ran]
    exact congrArg (· + 1) (ih left)

theorem map_disjoint {answers : List Answer} (distinct : (answers.flatMap Answer.issued).Nodup)
    (unreserved : ∀ color ∈ answers.flatMap Answer.issued, color ∉ reservedColors)
    {names : List Text} {m : SentinelMap} (listed : .map names m ∈ answers)
    (given : ∀ entry ∈ m.entries, entry.2 ∈ primarySentinel :: m.issued)
    {answer : Answer} (member : answer ∈ answers) (other : .map names m ≠ answer) :
    (m.entries.map Prod.snd).Disjoint answer.issued := by
  intro sentinel ofMap issued
  obtain ⟨entry, known, rfl⟩ := List.mem_map.mp ofMap
  rcases List.mem_cons.mp (given entry known) with fixed | taken
  · have free := unreserved _ (List.mem_flatMap_of_mem member issued)
    rw [fixed] at free
    exact free (by decide)
  · have : Std.Symm (Function.onFun List.Disjoint Answer.issued) := ⟨fun _ _ => List.disjoint_symm⟩
    have apart := (List.nodup_flatMap.mp distinct).2
    exact apart.forall listed member other taken issued

/-- Whatever is drawn and asked for, the colors issued are pairwise different, have six digits, are
not reserved, and the allocator counts them. Maps and escaped calls are as they should be, and share
no sentinel. All calls are answered if the stream keeps yielding every color and there are enough. -/
theorem run_issued (draws : Draws) (calls : List Call) :
    let answers := (run { draws } calls).1
    let issued := (run { draws } calls).2.issued
    let colors := answers.flatMap Answer.issued
    colors.Nodup ∧ (∀ color ∈ colors, IsColor color ∧ color ∉ reservedColors) ∧
      issued.length = colors.length ∧
      (∀ names m, .map names m ∈ answers → m.Assigns names) ∧
      (∀ source symbols escaped, .calls source symbols escaped ∈ answers →
        escaped.Pairs symbols source ∧ ∀ names m, .map names m ∈ answers →
          (m.entries.map Prod.snd).Disjoint (escaped.entries.map Prod.fst)) ∧
      answers.map Answer.call <+: calls ∧
      (draws.Plentiful → (calls.map Call.demand).sum ≤ colorCount →
        answers.map Answer.call = calls) := by
  intro answers issued colors
  obtain ⟨asked, answered⟩ := run_answered calls (sound_start draws)
  have reversed : issued = colors.reverse := answered.recorded.trans (List.append_nil _)
  have distinct : colors.Nodup := List.nodup_reverse.mp (reversed ▸ answered.sound.distinct)
  have colored : ∀ color ∈ colors, IsColor color ∧ color ∉ reservedColors := by
    intro color known
    have listed : color ∈ issued := reversed ▸ List.mem_reverse.mpr known
    exact answered.sound.colored color listed
  refine ⟨distinct, colored, by rw [reversed, List.length_reverse],
    fun names m listed => (answered.fits _ listed).1,
    fun source symbols escaped listed => ⟨answered.fits _ listed, fun names m mapped => ?_⟩,
    asked, fun plentiful enough => ?_⟩
  · exact map_disjoint distinct (fun color known => (colored color known).2) mapped
      (answered.fits _ mapped).2 listed nofun
  · refine asked.eq_of_length ?_
    rw [List.length_map]
    exact run_left ⟨plentiful, by simpa using enough⟩

/-- All kinds of calls, in turns, are answered from the stream of all colors. -/
theorem run_issued_counting :
    let symbols := Bindings.parse "@a: #fff; @b: #eee;"
    let calls : List Call := [.next, .assign ["@b", primaryVariable, "@b"],
      .escape "fade(@a, 1%) fade(@b, 1%) fade(@a, 1%)" symbols, .assign ["@a"], .next]
    (run { draws := Draws.counting } calls).1.map Answer.call = calls := by
  intro symbols calls
  have enough : (calls.map Call.demand).sum ≤ colorCount := by decide +kernel
  obtain ⟨_, _, _, _, _, _, answered⟩ := run_issued Draws.counting calls
  exact answered Draws.counting_plentiful enough

end Allocator
end ColorTheme
