import ColorTheme.Sentinel
import Mathlib.Algebra.Group.Nat.Defs
import Mathlib.Data.List.Nodup
import Mathlib.Data.Nat.Bitwise

/-!
Sentinels are colors of their own. What an allocator issues is the color of the first draw from where
it stands that is neither reserved nor issued; it waits for one without end just if the stream has
none. Six digits write so many colors and no more, so a stream in which each comes up again and again
yields one just as long as any are left. -/
namespace ColorTheme

def sentinelDigits : Text := "0123456789abcdef"

theorem digitChar_sentinel : ∀ d < 16, Nat.digitChar d ∈ sentinelDigits := by decide

theorem digitValue_digitChar : ∀ d < 16, Text.digitValue (Nat.digitChar d) = d := by decide

theorem mem_toDigits {n : Nat} {c : Char} (member : c ∈ Nat.toDigits 16 n) :
    c ∈ sentinelDigits := by
  induction n using Nat.strongRecOn with
  | ind n ih =>
    rw [Nat.toDigits_eq_if (by decide)] at member
    split at member
    · rename_i small
      rw [List.mem_singleton.mp member]
      exact digitChar_sentinel n small
    · rename_i large
      rcases List.mem_append.mp member with earlier | last
      · exact ih (n / 16) (by omega) earlier
      · rw [List.mem_singleton.mp last]
        exact digitChar_sentinel (n % 16) (by omega)

theorem valueIn_toDigits (n : Nat) : Text.valueIn 16 (Nat.toDigits 16 n) = n := by
  induction n using Nat.strongRecOn with
  | ind n ih =>
    rw [Nat.toDigits_eq_if (by decide)]
    split
    · rename_i small
      have digit := digitValue_digitChar n small
      simpa [Text.valueIn] using digit
    · rename_i large
      rw [Text.valueIn_concat, ih (n / 16) (by omega), digitValue_digitChar (n % 16) (by omega)]
      omega

theorem valueIn_zeros (base count : Nat) (digits : Text) :
    Text.valueIn base (List.replicate count '0' ++ digits) = Text.valueIn base digits := by
  have zero : Text.digitValue '0' = 0 := by decide
  induction count with
  | zero => rfl
  | succ count ih => simpa [List.replicate_succ, Text.valueIn, zero] using ih

theorem colorText_digits (n : Nat) :
    ∃ digits, colorText n = '#' :: digits ∧ ∀ c ∈ digits, c ∈ sentinelDigits := by
  refine ⟨_, rfl, fun c member => ?_⟩
  rcases List.mem_append.mp member with zero | digit
  · rw [List.eq_of_mem_replicate zero]
    decide
  · exact mem_toDigits digit

theorem colorText_inj {m n : Nat} (same : colorText m = colorText n) : m = n := by
  have number : ∀ k, Text.valueIn 16 (colorText k).tail = k := fun k => by
    rw [colorText, List.cons_append, List.tail_cons, valueIn_zeros, valueIn_toDigits]
  rw [← number m, same, number n]

/-- `#` and six sentinel digits. -/
def IsColor (color : Text) : Prop :=
  ∃ digits, color = '#' :: digits ∧ digits.length = 6 ∧ ∀ c ∈ digits, c ∈ sentinelDigits

theorem colorText_isColor {n : Nat} : IsColor (colorText n) ↔ n < 16 ^ 6 := by
  have width : (colorText n).length =
      6 - (Nat.toDigits 16 n).length + (Nat.toDigits 16 n).length + 1 := by simp [colorText]
  rw [← Nat.length_toDigits_le_iff (by decide) (by decide)]
  constructor
  · rintro ⟨digits, written, six, _⟩
    rw [written, List.length_cons] at width
    omega
  · intro short
    obtain ⟨digits, written, lower⟩ := colorText_digits n
    rw [written, List.length_cons] at width
    exact ⟨digits, written, by omega, lower⟩

theorem primarySentinel_colored : IsColor primarySentinel := by
  have number : primarySentinel = colorText 0x123456 := by decide
  rw [number]
  exact colorText_isColor.mpr (by decide)

/-- Every color comes up again, however many draws were taken. -/
def Draws.Plentiful (draws : Draws) : Prop :=
  ∀ n < 16 ^ 6, ∀ start, ∃ k, start ≤ k ∧ Allocator.colorOfDraw? (draws k) = some (colorText n)

/-- All colors in the order of their numbers, over and over again. -/
def Draws.counting : Draws := fun k => UInt32.ofNat (k * 2 ^ 8)

theorem Draws.counting_plentiful : counting.Plentiful := by
  intro n small start
  have word : (UInt32.ofNat ((n + 16 ^ 6 * start) * 2 ^ 8)).toNat = n * 2 ^ 8 := by
    rw [UInt32.toNat_ofNat']
    omega
  refine ⟨n + 16 ^ 6 * start, by omega, ?_⟩
  have clear : UInt32.ofNat ((n + 16 ^ 6 * start) * 2 ^ 8) &&& 0x80 = 0 := by
    have bit : (0x80 : UInt32).toNat = 2 ^ 7 := rfl
    rw [← UInt32.toNat_inj, UInt32.toNat_and, word, bit, Nat.and_two_pow, Nat.testBit_mul_two_pow]
    rfl
  have upper : (UInt32.ofNat ((n + 16 ^ 6 * start) * 2 ^ 8) >>> 8).toNat = n := by
    rw [UInt32.toNat_shiftRight, word, Nat.shiftRight_eq_div_pow]
    exact Nat.mul_div_cancel n (by decide)
  rw [counting, Allocator.colorOfDraw?, if_neg (not_not.mpr clear), upper]

namespace Allocator

/-- How many colors can be issued. -/
def colorCount : Nat := 16 ^ 6 - reservedColors.length

variable {a b : Allocator} {color : Text} {n : Nat}

theorem fresh_iff : a.fresh color = true ↔ color ∉ reservedColors ∧ color ∉ a.issued := by
  simp [fresh]

theorem colorOfDraw?_eq {v : UInt32} (drawn : colorOfDraw? v = some color) :
    ∃ n < 16 ^ 6, color = colorText n := by
  unfold colorOfDraw? at drawn
  split at drawn
  · contradiction
  · refine ⟨(v >>> 8).toNat, ?_, (Option.some.inj drawn).symm⟩
    have word := v.toNat_lt
    rw [UInt32.toNat_shiftRight, Nat.shiftRight_eq_div_pow]
    exact Nat.div_lt_of_lt_mul word

theorem freshAt?_eq_some : a.freshAt? n = some color ↔
    colorOfDraw? (a.draws n) = some color ∧ color ∉ reservedColors ∧ color ∉ a.issued := by
  rw [freshAt?, Option.filter_eq_some_iff, fresh_iff]

/-- A color is issued just if it is the first fresh one that is drawn. -/
theorem next_eq_some : a.next = some (color, b) ↔ ∃ n, a.drawn ≤ n ∧ a.freshAt? n = some color ∧
    (∀ k, a.drawn ≤ k → k < n → a.freshAt? k = none) ∧
    b = { a with drawn := n + 1, issued := color :: a.issued } := by
  constructor
  · refine next.partial_correctness (fun a out => ∃ n, a.drawn ≤ n ∧ a.freshAt? n = some out.1 ∧
      (∀ k, a.drawn ≤ k → k < n → a.freshAt? k = none) ∧
      out.2 = { a with drawn := n + 1, issued := out.1 :: a.issued }) ?_ a (color, b)
    intro again ih a out issued
    dsimp only at issued
    split at issued
    · rename_i color here
      cases issued
      exact ⟨a.drawn, Nat.le_refl _, here, fun k start before => absurd start (by omega), rfl⟩
    · rename_i missed
      obtain ⟨n, start, found, first, after⟩ := ih _ out issued
      refine ⟨n, Nat.le_of_succ_le start, found, fun k begun before => ?_, after⟩
      rcases Nat.eq_or_lt_of_le begun with rfl | later
      · exact missed
      · exact first k later before
  · rintro ⟨n, start, found, first, rfl⟩
    obtain ⟨waits, rfl⟩ := Nat.exists_eq_add_of_le start
    induction waits generalizing a with
    | zero =>
      rw [next, show a.freshAt? a.drawn = some color from found]
    | succ waits ih =>
      rw [next, first a.drawn (Nat.le_refl _) (by omega)]
      have position : a.drawn + 1 + waits = a.drawn + (waits + 1) := by omega
      have later := ih (a := { a with drawn := a.drawn + 1 }) (Nat.le_add_right _ _)
        (position ▸ found) fun k begun before => first k (Nat.le_of_succ_le begun) (position ▸ before)
      simpa only [position] using later

/-- An allocator waits without end just if no fresh color is left in the stream. -/
theorem next_eq_none : a.next = none ↔ ∀ n, a.drawn ≤ n → a.freshAt? n = none := by
  constructor
  · intro endless n
    induction n using Nat.strongRecOn with
    | ind n ih =>
      intro start
      cases here : a.freshAt? n with
      | none => rfl
      | some color =>
        have issued := next_eq_some.mpr
          ⟨n, start, here, fun k begun before => ih k before begun, rfl⟩
        rw [endless] at issued
        contradiction
  · intro missed
    rw [Option.eq_none_iff_forall_ne_some]
    rintro ⟨color, b⟩ issued
    obtain ⟨n, start, found, _⟩ := next_eq_some.mp issued
    rw [missed n start] at found
    contradiction

theorem next_first (color : Text) (here : a.freshAt? a.drawn = some color) :
    a.next = some (color, { a with drawn := a.drawn + 1, issued := color :: a.issued }) :=
  next_eq_some.mpr ⟨a.drawn, Nat.le_refl _, here, fun k start before => absurd start (by omega), rfl⟩

/-- What issuing a color does: it is drawn meanwhile and new, and it is recorded. -/
structure Issues (a : Allocator) (color : Text) (b : Allocator) : Prop where
  number : ∃ n < 16 ^ 6, color = colorText n
  fresh : color ∉ a.issued
  unreserved : color ∉ reservedColors
  recorded : b.issued = color :: a.issued
  stream : b.draws = a.draws
  drawn : ∃ n, a.drawn ≤ n ∧ n < b.drawn ∧ colorOfDraw? (a.draws n) = some color

theorem next_issues (issued : a.next = some (color, b)) : Issues a color b := by
  obtain ⟨n, start, found, _, rfl⟩ := next_eq_some.mp issued
  obtain ⟨drawn, unreserved, fresh⟩ := freshAt?_eq_some.mp found
  exact ⟨colorOfDraw?_eq drawn, fresh, unreserved, rfl, rfl, n, start, Nat.lt_succ_self n, drawn⟩

theorem Issues.colored (issues : a.Issues color b) : IsColor color := by
  obtain ⟨n, small, rfl⟩ := issues.number
  exact colorText_isColor.mpr small

theorem exists_fresh (left : a.issued.length < colorCount) :
    ∃ n < 16 ^ 6, a.fresh (colorText n) = true := by
  by_contra missed
  have taken : (List.range (16 ^ 6)).map colorText ⊆ reservedColors ++ a.issued := by
    intro color member
    obtain ⟨n, small, rfl⟩ := List.mem_map.mp member
    by_contra missing
    rw [List.mem_append, not_or] at missing
    exact missed ⟨n, List.mem_range.mp small, fresh_iff.mpr missing⟩
  have distinct : ((List.range (16 ^ 6)).map colorText).Nodup :=
    List.Nodup.map (fun _ _ => colorText_inj) List.nodup_range
  have bound := distinct.length_le_of_subset taken
  simp only [List.length_map, List.length_range, List.length_append] at bound
  simp only [colorCount] at left
  omega

/-- The stream is plentiful, and as many colors are left. -/
structure Left (a : Allocator) (count : Nat) : Prop where
  plentiful : a.draws.Plentiful
  bounded : a.issued.length + count ≤ colorCount

theorem Left.next {count : Nat} (left : a.Left (count + 1)) :
    ∃ color b, a.next = some (color, b) ∧ b.Left count := by
  obtain ⟨plentiful, bounded⟩ := left
  obtain ⟨n, small, fresh⟩ := exists_fresh (a := a) (by omega)
  obtain ⟨k, start, drawn⟩ := plentiful n small a.drawn
  cases issued : a.next with
  | none =>
    have missed := next_eq_none.mp issued k start
    rw [freshAt?_eq_some.mpr ⟨drawn, fresh_iff.mp fresh⟩] at missed
    contradiction
  | some out =>
    obtain ⟨color, b⟩ := out
    have issues := next_issues issued
    refine ⟨color, b, rfl, issues.stream ▸ plentiful, ?_⟩
    rw [issues.recorded, List.length_cons]
    omega

end Allocator

namespace SentinelMap

theorem get?_eq_none {m : SentinelMap} {name : Text} :
    m.get? name = none ↔ name ∉ m.entries.map Prod.fst := by
  simp only [get?, List.lookup_eq_none_iff, bne_iff_ne, List.mem_map, not_exists, not_and]
  exact ⟨fun apart entry member same => apart entry member same.symm,
    fun apart entry member same => apart entry member same.symm⟩

@[simp] theorem give_entries (m : SentinelMap) (name sentinel : Text) :
    (m.give name sentinel).entries = m.entries ++ [(name, sentinel)] := rfl

theorem assignFrom_new {m : SentinelMap} {a b : Allocator} {name color : Text}
    (missing : m.get? name = none) (other : name ≠ primaryVariable)
    (issued : a.next = some (color, b)) (rest : List Text) :
    assignFrom m a (name :: rest) = assignFrom (m.give name color) b rest := by
  simp [assignFrom, missing, other, issued]

/-- What holds of a map and an allocator holds after assignment, if each single assignment to a
name without a sentinel keeps it. -/
theorem assignFrom_induction {P : SentinelMap → Allocator → Prop} {names : List Text}
    {m after : SentinelMap} {a b : Allocator} (assigned : assignFrom m a names = some (after, b))
    (start : P m a)
    (primary : ∀ m a, primaryVariable ∈ names → primaryVariable ∉ m.entries.map Prod.fst → P m a →
      P (m.give primaryVariable primarySentinel) a)
    (issue : ∀ m a name color b, name ∈ names → name ∉ m.entries.map Prod.fst →
      name ≠ primaryVariable → a.Issues color b → P m a → P (m.give name color) b) :
    P after b := by
  induction names generalizing m a with
  | nil =>
    cases assigned
    exact start
  | cons name rest ih =>
    have step : ∀ {m a}, assignFrom m a rest = some (after, b) → P m a → P after b :=
      fun assigned known => ih assigned known
        (fun m a member => primary m a (List.mem_cons_of_mem name member))
        (fun m a other color b member => issue m a other color b (List.mem_cons_of_mem name member))
    unfold assignFrom at assigned
    split at assigned
    · exact step assigned start
    · rename_i missing
      have fresh := get?_eq_none.mp (Option.not_isSome_iff_eq_none.mp missing)
      split at assigned
      · rename_i same
        subst same
        exact step assigned (primary m a List.mem_cons_self fresh start)
      · rename_i other
        obtain ⟨⟨color, next⟩, issued, later⟩ := Option.bind_eq_some_iff.mp assigned
        exact step later (issue m a name color next List.mem_cons_self fresh other
          (Allocator.next_issues issued) start)

/-- Assignment comes to an end if there is a color left for each name. -/
theorem assignFrom_left {names : List Text} {count : Nat} (m : SentinelMap) {a : Allocator}
    (left : a.Left (names.length + count)) :
    ∃ after b, assignFrom m a names = some (after, b) ∧ b.Left count := by
  induction names generalizing m a with
  | nil => exact ⟨m, a, rfl, by simpa using left⟩
  | cons name rest ih =>
    have fewer : a.Left (rest.length + count) :=
      ⟨left.plentiful, Nat.le_trans (by simp) left.bounded⟩
    unfold assignFrom
    split
    · exact ih m fewer
    · split
      · exact ih _ fewer
      · have more : a.Left (rest.length + count + 1) :=
          ⟨left.plentiful, Nat.le_trans (by rw [List.length_cons]; omega) left.bounded⟩
        obtain ⟨color, b, issued, left⟩ := more.next
        rw [issued]
        exact ih (m.give name color) left

/-- Names of a list, each at most once, with sentinels. -/
structure Assigned (names : List Text) (m : SentinelMap) : Prop where
  distinct : (m.entries.map Prod.fst).Nodup
  given : ∀ entry ∈ m.entries, entry.1 ∈ names ∧ IsColor entry.2

theorem Assigned.give {names : List Text} {m : SentinelMap} (assigned : Assigned names m)
    {name color : Text} (member : name ∈ names) (fresh : name ∉ m.entries.map Prod.fst)
    (colored : IsColor color) : Assigned names (m.give name color) where
  distinct := by
    rw [give_entries, List.map_append, List.nodup_append]
    refine ⟨assigned.distinct, by simp, ?_⟩
    rintro other known _ last rfl
    obtain rfl : other = name := List.mem_singleton.mp last
    exact fresh known
  given entry known := by
    rcases List.mem_append.mp known with earlier | last
    · exact assigned.given entry earlier
    · rw [List.mem_singleton.mp last]
      exact ⟨member, colored⟩

theorem assign_assigned {names : List Text} {a b : Allocator} {m : SentinelMap}
    (assigned : assign names a = some (m, b)) : Assigned names m := by
  refine assignFrom_induction (P := fun m _ => Assigned names m) assigned
    ⟨List.nodup_nil, by simp⟩ ?_ ?_
  · intro m a member fresh assigned
    exact assigned.give member fresh primarySentinel_colored
  · intro m a name color b member fresh _ issues assigned
    exact assigned.give member fresh issues.colored

end SentinelMap
end ColorTheme
