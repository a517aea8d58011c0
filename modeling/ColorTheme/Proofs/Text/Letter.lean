import ColorTheme.Text.Letter

/-!
How the character classes lie in each other. -/
namespace ColorTheme.Text

theorem isAsciiAlphanumeric_lt {c : Char} (plain : isAsciiAlphanumeric c = true) :
    c.toNat < 128 := by
  have below : ∀ {d : Char}, c ≤ d → d.toNat < 128 → c.toNat < 128 :=
    fun h small => Nat.lt_of_le_of_lt (UInt32.le_iff_toNat_le.mp h) small
  simp only [isAsciiAlphanumeric, isDigit, Bool.or_eq_true, Bool.and_eq_true,
    decide_eq_true_eq] at plain
  rcases plain with (⟨_, high⟩ | ⟨_, high⟩) | ⟨_, high⟩
  · exact below high (by decide)
  · exact below high (by decide)
  · exact below high (by decide)

theorem isNameChar_of_isAsciiAlphanumeric {c : Char} (plain : isAsciiAlphanumeric c = true) :
    isNameChar c = true := by
  have ascii : ∀ n < 128, isAsciiAlphanumeric (Char.ofNat n) = true →
      isNameChar (Char.ofNat n) = true := by decide
  have known := ascii c.toNat (isAsciiAlphanumeric_lt plain)
  rw [Char.ofNat_toNat] at known
  exact known plain

theorem isAsciiAlphanumeric_of_isHexDigit {c : Char} (hex : isHexDigit c = true) :
    isAsciiAlphanumeric c = true := by
  simp only [isHexDigit, isAsciiAlphanumeric, Bool.or_eq_true, Bool.and_eq_true,
    decide_eq_true_eq] at hex ⊢
  rcases hex with (digit | ⟨low, high⟩) | ⟨low, high⟩
  · exact .inl (.inl digit)
  · exact .inl (.inr ⟨low, Char.le_trans high (by decide)⟩)
  · exact .inr ⟨low, Char.le_trans high (by decide)⟩

/-- Goes past the blocks that end before `block` begins, to `later` at the first behind it. -/
def passesBlock (block : Nat × Nat) (later : List (Nat × Nat) → Bool) : List (Nat × Nat) → Bool
  | [] => true
  | other :: others =>
    if block.2 < other.1 then decide (other.1 ≤ other.2) && later (other :: others)
    else decide (other.2 < block.1 ∧ block.1 ≤ block.2) && passesBlock block later others

/-- Whether two tables share no code point, by one walk along both. -/
def disjointBlocks : (blocks others : List (Nat × Nat)) → Bool
  | [], _ => true
  | block :: blocks, others => passesBlock block (disjointBlocks blocks) others

theorem inBlocks_passesBlock {n : Nat} {block : Nat × Nat} {later : List (Nat × Nat) → Bool}
    {others : List (Nat × Nat)} (passed : passesBlock block later others = true)
    (inside : n ≤ block.2 → block.1 ≤ n)
    (behind : block.2 < n → ∀ {others}, later others = true → inBlocks n others = false) :
    inBlocks n others = false := by
  induction others with
  | nil => rfl
  | cons other others ih =>
    unfold passesBlock at passed
    split at passed
    · rename_i before
      obtain ⟨filled, rest⟩ := Bool.and_eq_true_iff.mp passed
      by_cases within : n ≤ block.2
      · -- The search stops at `other`, which begins behind `n`.
        have low : n < other.1 := Nat.lt_of_le_of_lt within before
        have stops : n ≤ other.2 := Nat.le_trans (Nat.le_of_lt low) (of_decide_eq_true filled)
        simp [inBlocks, stops, low]
      · exact behind (Nat.lt_of_not_le within) rest
    · obtain ⟨ends, rest⟩ := Bool.and_eq_true_iff.mp passed
      obtain ⟨low, filled⟩ := of_decide_eq_true ends
      have past : other.2 < n := by omega
      rw [inBlocks, if_neg (Nat.not_le_of_lt past)]
      exact ih rest

theorem inBlocks_disjoint {n : Nat} {blocks others : List (Nat × Nat)}
    (disjoint : disjointBlocks blocks others = true) (inside : inBlocks n blocks = true) :
    inBlocks n others = false := by
  induction blocks generalizing others with
  | nil => contradiction
  | cons block blocks ih =>
    unfold inBlocks at inside
    split at inside
    · rename_i stops
      exact inBlocks_passesBlock disjoint (fun _ => of_decide_eq_true inside) fun past =>
        absurd stops (Nat.not_le_of_lt past)
    · rename_i past
      exact inBlocks_passesBlock disjoint (fun stops => absurd stops past) fun _ _ rest =>
        ih rest inside

/-- Characters that go on with a word and are neither letters nor digits, `_` apart: marks, the
other connectors and the joiners. -/
def isExtender (c : Char) : Bool :=
  inBlocks c.toNat markBlocks || (inBlocks c.toNat connectorBlocks && c ≠ '_') || isJoiner c

theorem extenders_disjoint : ∀ blocks ∈ [markBlocks, connectorBlocks, [(0x200C, 0x200D)]],
    ∀ others ∈ [alphabeticBlocks, decimalBlocks, otherNumberBlocks],
      disjointBlocks blocks others = true := by decide +kernel

theorem isAlphanumeric_of_isExtender {c : Char} (extending : isExtender c = true) :
    isAlphanumeric c = false := by
  have unnamed : ∀ {blocks}, blocks ∈ [markBlocks, connectorBlocks, [(0x200C, 0x200D)]] →
      inBlocks c.toNat blocks = true → isAlphanumeric c = false := by
    intro blocks table inside
    have outside : ∀ others ∈ [alphabeticBlocks, decimalBlocks, otherNumberBlocks],
        inBlocks c.toNat others = false := fun others member =>
      inBlocks_disjoint (extenders_disjoint blocks table others member) inside
    simpa [isAlphanumeric, isAlphabetic, isDecimal, and_assoc] using outside
  simp only [isExtender, Bool.or_eq_true, Bool.and_eq_true] at extending
  rcases extending with (mark | ⟨connector, _⟩) | joiner
  · exact unnamed (by simp) mark
  · exact unnamed (by simp) connector
  · have inside : inBlocks c.toNat [(0x200C, 0x200D)] = true := by
      simp only [isJoiner, Bool.or_eq_true, decide_eq_true_eq] at joiner
      rcases joiner with same | same
      · rw [same]
        rfl
      · rw [same]
        rfl
    exact unnamed (by simp) inside

/-- Of the characters of words just the extenders cannot stand in a name. -/
theorem isNameChar_eq {c : Char} (word : isWordOrDash c = true) : isNameChar c = !isExtender c := by
  cases extender : isExtender c with
  | true =>
    have dash : c ≠ '-' := by rintro rfl; exact absurd extender (by decide)
    have line : c ≠ '_' := by rintro rfl; exact absurd extender (by decide)
    simp [isNameChar, isAlphanumeric_of_isExtender extender, dash, line]
  | false =>
    simp only [isExtender, Bool.or_eq_false_iff] at extender
    obtain ⟨⟨mark, connector⟩, joiner⟩ := extender
    simp only [isWordOrDash, isWordChar, mark, joiner, Bool.or_false, Bool.or_eq_true] at word
    rcases word with ((letter | digit) | connects) | dash
    · simp [isNameChar, isAlphanumeric, letter]
    · simp [isNameChar, isAlphanumeric, digit]
    · have line : c = '_' := by simpa [connects] using connector
      simp [isNameChar, line]
    · simp_all [isNameChar]

end ColorTheme.Text
