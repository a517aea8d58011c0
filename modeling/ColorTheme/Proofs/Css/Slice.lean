import ColorTheme.Proofs.Css.RoundTrip

/-!
Where the texts of a sheet come from. A sheet is laid out in its tokens if they are the items of the
sheet one after the other; each text of it is the content of consecutive tokens, its slice. The
layout is exactly what the reading follows. -/
namespace ColorTheme.Css

open Token

namespace Token

theorem splitBlock_parts {ts inside back : List Token} (body : splitBlock ts = (inside, back)) :
    inside <+: ts ∧ back <:+ ts := by
  generalize split : splitOutside closesBlock [] ts = parts at body
  obtain ⟨front, rest⟩ := parts
  obtain ⟨rfl, _, _⟩ := splitOutside_spec split
  simp only [splitBlock, split, Prod.mk.injEq] at body
  obtain ⟨rfl, rfl⟩ := body
  refine ⟨List.prefix_append front rest, ?_⟩
  exact (List.tail_suffix rest).trans (List.suffix_append front rest)

theorem skipStatement_suffix (ts : List Token) : skipStatement ts <:+ ts := by
  generalize split : splitOutside endsPrelude [] ts = parts
  obtain ⟨front, back⟩ := parts
  obtain ⟨rfl, _, _⟩ := splitOutside_spec split
  have behind : back <:+ front ++ back := List.suffix_append front back
  simp only [skipStatement, split]
  cases back with
  | nil => exact behind
  | cons t rest =>
    have inner : rest <:+ front ++ t :: rest := (List.suffix_cons t rest).trans behind
    dsimp only
    split
    · exact (splitBlock_parts rfl).2.trans inner
    · exact inner

theorem tail_suffix_cons (t : Token) (item back : List Token) :
    back.tail <:+ t :: (item ++ back) :=
  (List.tail_suffix back).trans ((List.suffix_append item back).trans (List.suffix_cons t _))

end Token

/-- A node with slices in place of texts. Names are decoded, so they have none. -/
inductive SlicedNode
  | rule (selector : List Token) (declarations : List (Text × List Token))
  | atRule (name : Text) (prelude : List Token) (block : Option (List Token))

namespace SlicedNode

def slices : SlicedNode → List (List Token)
  | .rule selector declarations => selector :: declarations.map Prod.snd
  | .atRule _ prelude block => prelude :: block.toList

def declaration (part : Text × List Token) : Declaration := ⟨part.1, content part.2⟩

def node : SlicedNode → Node
  | .rule selector declarations => .rule ⟨content selector, declarations.map declaration⟩
  | .atRule name prelude block => .atRule ⟨name, content prelude, block.map content⟩

end SlicedNode

open SlicedNode

/-- The inside of a block with the declarations in it: name, colon and value up to a semicolon
outside all brackets. Everything else is passed over. -/
inductive SlicedBlock : List Token → List (Text × List Token) → Prop
  | nil : SlicedBlock [] []
  | skip {t : Token} {rest : List Token} {ds : List (Text × List Token)}
      (skipped : (t.isBlank || t.isSemicolon) = true) (later : SlicedBlock rest ds) :
      SlicedBlock (t :: rest) ds
  | statement {t : Token} {name : Text} {rest : List Token} {ds : List (Text × List Token)}
      (kind : t.kind = .atKeyword name) (later : SlicedBlock (skipStatement rest) ds) :
      SlicedBlock (t :: rest) ds
  | declaration {t colon : Token} {property : Text} {rest blanks value back : List Token}
      {ds : List (Text × List Token)} (kind : t.kind = .ident property)
      (split : splitOutside isSemicolon [] rest = (blanks ++ colon :: value, back))
      (blank : ∀ b ∈ blanks, b.isBlank = true) (sign : colon.kind = .colon)
      (later : SlicedBlock back.tail ds) : SlicedBlock (t :: rest) ((property, value) :: ds)
  | unread {t : Token} {rest item back : List Token} {ds : List (Text × List Token)}
      (solid : (t.isBlank || t.isSemicolon) = false) (other : ∀ name, t.kind ≠ .atKeyword name)
      (split : splitOutside isSemicolon (t.nest []) rest = (item, back))
      (unread : Declaration.ofTokens? (t :: item) = none) (later : SlicedBlock back.tail ds) :
      SlicedBlock (t :: rest) ds

/-- A sheet with its items. A character set rule is passed over where it comes first. -/
inductive SlicedSheet : (isFirst : Bool) → List Token → List SlicedNode → Prop
  | nil {isFirst : Bool} : SlicedSheet isFirst [] []
  | filler {isFirst : Bool} {t : Token} {rest : List Token} {nodes : List SlicedNode}
      (filler : t.isFiller = true) (later : SlicedSheet isFirst rest nodes) :
      SlicedSheet isFirst (t :: rest) nodes
  | charset {t : Token} {name : Text} {rest : List Token} {nodes : List SlicedNode}
      (kind : t.kind = .atKeyword name) (charset : name.map Text.lowerAscii = "charset".toList)
      (later : SlicedSheet false (skipStatement rest) nodes) : SlicedSheet true (t :: rest) nodes
  | statement {isFirst : Bool} {t : Token} {name : Text} {rest prelude back : List Token}
      {nodes : List SlicedNode} (kind : t.kind = .atKeyword name)
      (kept : (isFirst && name.map Text.lowerAscii = "charset".toList) = false)
      (split : splitOutside endsPrelude [] rest = (prelude, back))
      (ends : back.head?.any opensBlock = false) (later : SlicedSheet false back.tail nodes) :
      SlicedSheet isFirst (t :: rest) (.atRule name prelude none :: nodes)
  | block {isFirst : Bool} {t brace : Token} {name : Text}
      {rest prelude more inside back : List Token} {nodes : List SlicedNode}
      (kind : t.kind = .atKeyword name)
      (kept : (isFirst && name.map Text.lowerAscii = "charset".toList) = false)
      (split : splitOutside endsPrelude [] rest = (prelude, brace :: more))
      (opens : brace.opensBlock = true) (body : splitBlock more = (inside, back))
      (later : SlicedSheet false back nodes) :
      SlicedSheet isFirst (t :: rest) (.atRule name prelude (some inside) :: nodes)
  | rule {isFirst : Bool} {t brace : Token} {rest selector more inside back : List Token}
      {ds : List (Text × List Token)} {nodes : List SlicedNode} (starts : t.startsRule)
      (split : splitOutside opensBlock [] (t :: rest) = (selector, brace :: more))
      (filled : content selector ≠ []) (body : splitBlock more = (inside, back))
      (declarations : SlicedBlock inside ds) (later : SlicedSheet false back nodes) :
      SlicedSheet isFirst (t :: rest) (.rule selector ds :: nodes)

namespace SlicedBlock

variable {ts : List Token} {ds : List (Text × List Token)}

theorem dropWhile_blanks {colon : Token} {blanks : List Token}
    (blank : ∀ b ∈ blanks, b.isBlank = true) (sign : colon.kind = .colon) (value : List Token) :
    (blanks ++ colon :: value).dropWhile isBlank = colon :: value := by
  have plain : colon.isBlank = false := by simp [isBlank, sign]
  rw [List.dropWhile_append_of_pos blank, List.dropWhile_cons_of_neg (by simp [plain])]

theorem ofTokens?_eq {t colon : Token} {property : Text} {blanks : List Token}
    (kind : t.kind = .ident property) (blank : ∀ b ∈ blanks, b.isBlank = true)
    (sign : colon.kind = .colon) (value : List Token) :
    Declaration.ofTokens? (t :: (blanks ++ colon :: value)) =
      some (SlicedNode.declaration (property, value)) := by
  simp only [Declaration.ofTokens?, kind, dropWhile_blanks blank sign value, if_pos sign]
  rfl

theorem listOfTokens (sliced : SlicedBlock ts ds) :
    Declaration.listOfTokens ts = ds.map SlicedNode.declaration := by
  induction sliced with
  | nil =>
    rw [Declaration.listOfTokens]
    rfl
  | skip skipped _ ih => rw [Declaration.listOfTokens, if_pos skipped, ih]
  | @statement t name rest ds kind _ ih =>
    have solid : (t.isBlank || t.isSemicolon) = false := by simp [isBlank, isSemicolon, kind]
    rw [Declaration.listOfTokens, if_neg (by simp [solid])]
    simp only [kind, ih]
  | @declaration t colon property rest blanks value back ds kind split blank sign _ ih =>
    have solid : (t.isBlank || t.isSemicolon) = false := by simp [isBlank, isSemicolon, kind]
    have flat : t.nest [] = [] := by simp [nest, opens?, closes?, kind]
    have read := ofTokens?_eq kind blank sign value
    rw [Declaration.listOfTokens, if_neg (by simp [solid])]
    simp only [kind, flat, split, read, ih]
    rfl
  | @unread t rest item back ds solid other split none _ ih =>
    rw [Declaration.listOfTokens, if_neg (by simp [solid])]
    split
    · rename_i name kind
      exact absurd kind (other name)
    · simp only [split, none, ih]
      rfl

theorem value_isInfix (sliced : SlicedBlock ts ds) : ∀ part ∈ ds, part.2 <:+: ts := by
  have further : ∀ {more ts : List Token} {ds : List (Text × List Token)},
      (∀ part ∈ ds, part.2 <:+: more) → more <:+ ts → ∀ part ∈ ds, part.2 <:+: ts :=
    fun inside behind part member => (inside part member).trans behind.isInfix
  induction sliced with
  | nil => exact List.forall_mem_nil _
  | skip _ _ ih => exact further ih (List.suffix_cons _ _)
  | statement _ _ ih => exact further ih ((skipStatement_suffix _).trans (List.suffix_cons _ _))
  | @declaration t colon property rest blanks value back ds _ split _ _ _ ih =>
    obtain ⟨rfl, _, _⟩ := splitOutside_spec split
    refine List.forall_mem_cons.mpr ⟨?_, further ih (tail_suffix_cons t _ back)⟩
    exact ⟨t :: (blanks ++ [colon]), back, by simp⟩
  | @unread t rest item back ds _ _ split _ _ ih =>
    obtain ⟨rfl, _, _⟩ := splitOutside_spec split
    exact further ih (tail_suffix_cons t item back)

theorem solid_of_kind {t : Token}
    (kind : t.kind ≠ .space ∧ t.kind ≠ .comment ∧ t.kind ≠ .semicolon) :
    (t.isBlank || t.isSemicolon) = false := by
  simp [isBlank, isSemicolon, kind]

theorem unique {es : List (Text × List Token)} (first : SlicedBlock ts ds)
    (second : SlicedBlock ts es) : ds = es := by
  induction first generalizing es with
  | nil =>
    cases second
    rfl
  | @skip t rest ds skipped _ ih =>
    have apart : ∀ {kind : Kind}, t.kind = kind →
        kind ≠ .space ∧ kind ≠ .comment ∧ kind ≠ .semicolon → False := by
      rintro kind rfl other
      exact Bool.false_ne_true ((solid_of_kind other).symm.trans skipped)
    cases second with
    | skip _ later => exact ih later
    | statement kind _ => exact (apart kind (by simp)).elim
    | declaration kind _ _ _ _ => exact (apart kind (by simp)).elim
    | unread solid _ _ _ _ => exact absurd (solid.symm.trans skipped) (by simp)
  | @statement t name rest ds kind _ ih =>
    cases second with
    | skip skipped _ =>
      exact absurd ((solid_of_kind (by simp [kind])).symm.trans skipped) (by simp)
    | statement _ later => exact ih later
    | declaration other _ _ _ _ => exact absurd (kind.symm.trans other) (by simp)
    | unread _ other _ _ _ => exact absurd kind (other name)
  | @declaration t colon property rest blanks value back ds kind split blank sign _ ih =>
    have flat : t.nest [] = [] := by simp [nest, opens?, closes?, kind]
    cases second with
    | skip skipped _ =>
      exact absurd ((solid_of_kind (by simp [kind])).symm.trans skipped) (by simp)
    | statement other _ => exact absurd (kind.symm.trans other) (by simp)
    | declaration other cut white mark later =>
      obtain ⟨item, rfl⟩ := Prod.mk.inj (split.symm.trans cut)
      have same := congrArg (List.dropWhile isBlank) item
      rw [dropWhile_blanks blank sign, dropWhile_blanks white mark] at same
      obtain ⟨_, rfl⟩ := List.cons.inj same
      obtain rfl := Kind.ident.inj (kind.symm.trans other)
      rw [ih later]
    | unread _ _ cut none _ =>
      rw [flat, split] at cut
      obtain ⟨rfl, _⟩ := Prod.mk.inj cut
      exact absurd ((ofTokens?_eq kind blank sign value).symm.trans none) (by simp)
  | @unread t rest item back ds solid other split none _ ih =>
    cases second with
    | skip skipped _ => exact absurd (solid.symm.trans skipped) (by simp)
    | statement kind _ => exact absurd kind (other _)
    | @declaration _ _ _ _ _ value _ _ kind cut blank sign _ =>
      have flat : t.nest [] = [] := by simp [nest, opens?, closes?, kind]
      rw [flat, cut] at split
      obtain ⟨rfl, _⟩ := Prod.mk.inj split
      exact absurd ((ofTokens?_eq kind blank sign value).symm.trans none) (by simp)
    | unread _ _ cut _ later =>
      obtain ⟨_, rfl⟩ := Prod.mk.inj (split.symm.trans cut)
      exact ih later

end SlicedBlock

theorem exists_slicedBlock (ts : List Token) : ∃ ds, SlicedBlock ts ds := by
  induction ts using Declaration.listOfTokens.induct with
  | case1 => exact ⟨[], .nil⟩
  | case2 t rest skipped ih =>
    obtain ⟨ds, later⟩ := ih
    exact ⟨ds, .skip skipped later⟩
  | case3 t rest kept name kind bound ih =>
    obtain ⟨ds, later⟩ := ih
    exact ⟨ds, .statement kind later⟩
  | case4 t rest kept parts bound other ih =>
    obtain ⟨ds, later⟩ := ih
    cases read : Declaration.ofTokens? (t :: parts.1) with
    | none => exact ⟨ds, .unread (by simpa using kept) other rfl read later⟩
    | some d =>
      obtain ⟨blanks, colon, value, kind, whole, blank, sign, _⟩ :=
        Declaration.ofTokens?_eq_some read
      have flat : t.nest [] = [] := by simp [nest, opens?, closes?, kind]
      have split : splitOutside isSemicolon [] rest = (blanks ++ colon :: value, parts.2) := by
        rw [← whole, ← flat]
      exact ⟨_, .declaration kind split blank sign later⟩

namespace SlicedSheet

variable {isFirst : Bool} {ts : List Token} {nodes : List SlicedNode}

theorem isFiller_of_keyword {t : Token} {name : Text} (kind : t.kind = .atKeyword name) :
    t.isFiller = false := by simp [isFiller, isBlank, kind]

theorem not_kept_of_charset {t : Token} {name other : Text} (kind : t.kind = .atKeyword name)
    (same : t.kind = .atKeyword other) (charset : name.map Text.lowerAscii = "charset".toList)
    (kept : (true && other.map Text.lowerAscii = "charset".toList) = false) : False := by
  obtain rfl := Kind.atKeyword.inj (kind.symm.trans same)
  rw [charset] at kept
  contradiction

theorem ofTokens (sliced : SlicedSheet isFirst ts nodes) :
    Sheet.ofTokens isFirst ts = .ok (nodes.map node) := by
  induction sliced with
  | nil => rw [Sheet.ofTokens]; rfl
  | filler filler _ ih => rw [Sheet.ofTokens_filler filler, ih]
  | charset kind charset _ ih =>
    rw [Sheet.ofTokens_item (isFiller_of_keyword kind)]
    simp only [Node.step, kind, charset, Bool.true_and, decide_true, if_true, ih]
  | @statement isFirst t name rest prelude back nodes kind kept split ends _ ih =>
    have step : AtRule.step name rest =
        .node (.atRule ⟨name, content prelude, none⟩) back.tail := by
      cases back with
      | nil => simp only [AtRule.step, split, List.tail_nil]
      | cons s back =>
        have other : s.opensBlock = false := ends
        simp only [AtRule.step, split, other, Bool.false_eq_true, if_false, List.tail_cons]
    rw [Sheet.ofTokens_item (isFiller_of_keyword kind)]
    simp only [Node.step, kind, kept, Bool.false_eq_true, if_false, step, ih]
    rfl
  | @block isFirst t brace name rest prelude more inside back nodes kind kept split opens body _
      ih =>
    rw [Sheet.ofTokens_item (isFiller_of_keyword kind)]
    simp only [Node.step, kind, kept, Bool.false_eq_true, if_false, AtRule.step, split, opens,
      if_true, body, ih]
    rfl
  | @rule isFirst t brace rest selector more inside back ds nodes starts split filled body block _
      ih =>
    have step : Node.step isFirst t rest = Rule.step (t :: rest) := by
      unfold Node.step
      split
      · rename_i name kind
        exact absurd kind (starts.2 name)
      · rfl
    rw [Sheet.ofTokens_item starts.1, step]
    simp only [Rule.step, split, List.isEmpty_iff, filled, if_false, body, block.listOfTokens, ih]
    rfl

theorem slices_isInfix (sliced : SlicedSheet isFirst ts nodes) :
    ∀ node ∈ nodes, ∀ slice ∈ node.slices, slice <:+: ts := by
  have further : ∀ {more ts : List Token} {nodes : List SlicedNode},
      (∀ node ∈ nodes, ∀ slice ∈ node.slices, slice <:+: more) → more <:+ ts →
        ∀ node ∈ nodes, ∀ slice ∈ node.slices, slice <:+: ts :=
    fun inside behind node member slice part => (inside node member slice part).trans behind.isInfix
  induction sliced with
  | nil => exact List.forall_mem_nil _
  | filler _ _ ih => exact further ih (List.suffix_cons _ _)
  | charset _ _ _ ih => exact further ih ((skipStatement_suffix _).trans (List.suffix_cons _ _))
  | @statement isFirst t name rest prelude back nodes _ _ split _ _ ih =>
    obtain ⟨rfl, _, _⟩ := splitOutside_spec split
    have later := further ih (tail_suffix_cons t prelude back)
    refine List.forall_mem_cons.mpr ⟨List.forall_mem_singleton.mpr ?_, later⟩
    exact ⟨[t], back, by simp⟩
  | @block isFirst t brace name rest prelude more inside back nodes _ _ split _ body _ ih =>
    obtain ⟨rfl, _, _⟩ := splitOutside_spec split
    obtain ⟨front, behind⟩ := splitBlock_parts body
    have outer : more <:+ t :: (prelude ++ brace :: more) := ⟨t :: (prelude ++ [brace]), by simp⟩
    have first : prelude <:+: t :: (prelude ++ brace :: more) := ⟨[t], brace :: more, by simp⟩
    have second : inside <:+: t :: (prelude ++ brace :: more) := front.isInfix.trans outer.isInfix
    refine List.forall_mem_cons.mpr ⟨?_, further ih (behind.trans outer)⟩
    exact List.forall_mem_cons.mpr ⟨first, List.forall_mem_singleton.mpr second⟩
  | @rule isFirst t brace rest selector more inside back ds nodes _ split _ body block _ ih =>
    obtain ⟨whole, _, _⟩ := splitOutside_spec split
    obtain ⟨front, behind⟩ := splitBlock_parts body
    rw [whole]
    have outer : more <:+ selector ++ brace :: more := ⟨selector ++ [brace], by simp⟩
    refine List.forall_mem_cons.mpr ⟨List.forall_mem_cons.mpr ⟨?_, ?_⟩,
      further ih (behind.trans outer)⟩
    · exact (List.prefix_append selector _).isInfix
    · rw [List.forall_mem_map]
      intro part member
      exact (block.value_isInfix part member).trans (front.isInfix.trans outer.isInfix)

theorem unique {others : List SlicedNode} (first : SlicedSheet isFirst ts nodes)
    (second : SlicedSheet isFirst ts others) : nodes = others := by
  have solid : ∀ {t : Token}, t.isFiller = false → t.isFiller = true → False :=
    fun other filler => Bool.false_ne_true (other.symm.trans filler)
  induction first generalizing others with
  | nil =>
    cases second
    rfl
  | filler filler _ ih =>
    cases second with
    | filler _ later => exact ih later
    | charset kind _ _ => exact (solid (isFiller_of_keyword kind) filler).elim
    | statement kind _ _ _ _ => exact (solid (isFiller_of_keyword kind) filler).elim
    | block kind _ _ _ _ _ => exact (solid (isFiller_of_keyword kind) filler).elim
    | rule starts _ _ _ _ _ => exact (solid starts.1 filler).elim
  | charset kind charset _ ih =>
    cases second with
    | filler filler _ => exact (solid (isFiller_of_keyword kind) filler).elim
    | charset _ _ later => exact ih later
    | statement other kept _ _ _ => exact (not_kept_of_charset kind other charset kept).elim
    | block other kept _ _ _ _ => exact (not_kept_of_charset kind other charset kept).elim
    | rule starts _ _ _ _ _ => exact absurd kind (starts.2 _)
  | statement kind kept split ends _ ih =>
    cases second with
    | filler filler _ => exact (solid (isFiller_of_keyword kind) filler).elim
    | charset other charset _ => exact (not_kept_of_charset other kind charset kept).elim
    | statement other _ cut _ later =>
      obtain rfl := Kind.atKeyword.inj (kind.symm.trans other)
      obtain ⟨rfl, rfl⟩ := Prod.mk.inj (split.symm.trans cut)
      rw [ih later]
    | block other _ cut opens _ _ =>
      obtain ⟨_, rfl⟩ := Prod.mk.inj (split.symm.trans cut)
      exact absurd (ends.symm.trans opens) (by simp)
    | rule starts _ _ _ _ _ => exact absurd kind (starts.2 _)
  | block kind kept split opens body _ ih =>
    cases second with
    | filler filler _ => exact (solid (isFiller_of_keyword kind) filler).elim
    | charset other charset _ => exact (not_kept_of_charset other kind charset kept).elim
    | statement other _ cut ends _ =>
      obtain ⟨_, rfl⟩ := Prod.mk.inj (split.symm.trans cut)
      exact absurd (ends.symm.trans opens) (by simp)
    | block other _ cut _ inner later =>
      obtain rfl := Kind.atKeyword.inj (kind.symm.trans other)
      obtain ⟨rfl, same⟩ := Prod.mk.inj (split.symm.trans cut)
      obtain ⟨_, rfl⟩ := List.cons.inj same
      obtain ⟨rfl, rfl⟩ := Prod.mk.inj (body.symm.trans inner)
      rw [ih later]
    | rule starts _ _ _ _ _ => exact absurd kind (starts.2 _)
  | rule starts split _ body block _ ih =>
    cases second with
    | filler filler _ => exact (solid starts.1 filler).elim
    | charset kind _ _ => exact absurd kind (starts.2 _)
    | statement kind _ _ _ _ => exact absurd kind (starts.2 _)
    | block kind _ _ _ _ _ => exact absurd kind (starts.2 _)
    | rule _ cut _ inner other later =>
      obtain ⟨rfl, same⟩ := Prod.mk.inj (split.symm.trans cut)
      obtain ⟨_, rfl⟩ := List.cons.inj same
      obtain ⟨rfl, rfl⟩ := Prod.mk.inj (body.symm.trans inner)
      rw [block.unique other, ih later]

theorem of_atRule {t : Token} {name : Text} {rest back : List Token} {n : Node}
    (kind : t.kind = .atKeyword name)
    (kept : (isFirst && name.map Text.lowerAscii = "charset".toList) = false)
    (step : AtRule.step name rest = .node n back) (later : SlicedSheet false back nodes) :
    ∃ item, SlicedSheet isFirst (t :: rest) (item :: nodes) := by
  generalize split : splitOutside endsPrelude [] rest = parts
  obtain ⟨prelude, behind⟩ := parts
  cases behind with
  | nil =>
    simp only [AtRule.step, split, Step.node.injEq] at step
    obtain ⟨_, rfl⟩ := step
    exact ⟨_, .statement kind kept split rfl later⟩
  | cons s behind =>
    cases opens : s.opensBlock with
    | true =>
      simp only [AtRule.step, split, opens, if_true, Step.node.injEq] at step
      obtain ⟨_, rfl⟩ := step
      exact ⟨_, .block kind kept split opens rfl later⟩
    | false =>
      simp only [AtRule.step, split, opens, Bool.false_eq_true, if_false, Step.node.injEq] at step
      obtain ⟨_, rfl⟩ := step
      exact ⟨_, .statement kind kept split opens later⟩

theorem of_rule {t : Token} {rest back : List Token} {n : Node} (starts : t.startsRule)
    (step : Rule.step (t :: rest) = .node n back) (later : SlicedSheet false back nodes) :
    ∃ item, SlicedSheet isFirst (t :: rest) (item :: nodes) := by
  generalize split : splitOutside opensBlock [] (t :: rest) = parts
  obtain ⟨selector, behind⟩ := parts
  cases behind with
  | nil => simp [Rule.step, split] at step
  | cons brace more =>
    simp only [Rule.step, split] at step
    split at step
    · contradiction
    · rename_i filled
      obtain ⟨ds, block⟩ := exists_slicedBlock (splitBlock more).1
      simp only [Step.node.injEq] at step
      obtain ⟨_, rfl⟩ := step
      exact ⟨_, .rule starts split (by simpa using filled) rfl block later⟩

theorem of_skipped {t : Token} {rest more : List Token}
    (step : Node.step isFirst t rest = .skipped more) (later : SlicedSheet false more nodes) :
    SlicedSheet isFirst (t :: rest) nodes := by
  unfold Node.step at step
  split at step
  · rename_i name kind
    split at step
    · rename_i skipped
      simp only [Bool.and_eq_true, decide_eq_true_eq] at skipped
      obtain ⟨rfl, charset⟩ := skipped
      cases step
      exact .charset kind charset later
    · unfold AtRule.step at step
      dsimp only at step
      split at step
      · contradiction
      · split at step
        · contradiction
        · contradiction
  · unfold Rule.step at step
    dsimp only at step
    split at step
    · contradiction
    · split at step
      · contradiction
      · contradiction

theorem of_node {t : Token} {rest more : List Token} {n : Node} (solid : t.isFiller = false)
    (step : Node.step isFirst t rest = .node n more) (later : SlicedSheet false more nodes) :
    ∃ item, SlicedSheet isFirst (t :: rest) (item :: nodes) := by
  unfold Node.step at step
  split at step
  · rename_i name kind
    split at step
    · contradiction
    · rename_i kept
      exact of_atRule kind (Bool.eq_false_iff.mpr kept) step later
  · rename_i other
    exact of_rule ⟨solid, other⟩ step later

/-- Every sheet that is read is laid out in its tokens. -/
theorem exists_of_ofTokens {sheet : Sheet} (read : Sheet.ofTokens isFirst ts = .ok sheet) :
    ∃ nodes, SlicedSheet isFirst ts nodes := by
  induction isFirst, ts using Sheet.ofTokens.induct generalizing sheet with
  | case1 isFirst => exact ⟨[], .nil⟩
  | case2 isFirst t rest filler ih =>
    rw [Sheet.ofTokens_filler filler] at read
    obtain ⟨nodes, later⟩ := ih read
    exact ⟨nodes, .filler filler later⟩
  | case3 isFirst t rest item _ stop step =>
    have solid : t.isFiller = false := by simpa using item
    rw [Sheet.ofTokens_item solid, step] at read
    contradiction
  | case4 isFirst t rest item _ more step ih =>
    have solid : t.isFiller = false := by simpa using item
    rw [Sheet.ofTokens_item solid, step] at read
    obtain ⟨nodes, later⟩ := ih read
    exact ⟨nodes, of_skipped step later⟩
  | case5 isFirst t rest item _ n more step ih =>
    have solid : t.isFiller = false := by simpa using item
    rw [Sheet.ofTokens_item solid, step] at read
    cases found : Sheet.ofTokens false more with
    | error stop => simp [found, Except.map] at read
    | ok others =>
      obtain ⟨nodes, later⟩ := ih found
      obtain ⟨item, whole⟩ := of_node solid step later
      exact ⟨item :: nodes, whole⟩

end SlicedSheet

theorem Token.scanned_of_isInfix {css : Text} {slice : List Token} (part : slice <:+: scan css) :
    source slice <:+: css ∧ ∃ u, Scanned slice u := by
  obtain ⟨front, back, whole⟩ := part
  have all : Scanned (front ++ slice ++ back) [] := by
    rw [Scanned, whole, source_scan, scan_nil, List.append_nil, List.append_nil]
  refine ⟨⟨source front, source back, ?_⟩, _, all.take.drop⟩
  rw [← source_append, ← source_append, whole, source_scan]

/-- Every text of a sheet is read from one slice of the source: it is what is left of the slice
without what looks like a comment, and where no comment opens in a token that is none, such as a
string or an address, it is the slice without its comments. -/
theorem Sheet.parse_slices {css : Text} {sheet : Sheet} (read : Sheet.parse css = .ok sheet) :
    ∃ nodes, (∀ others, SlicedSheet true (scan css) others ↔ others = nodes) ∧
      sheet = nodes.map SlicedNode.node ∧ ∀ node ∈ nodes, ∀ slice ∈ node.slices,
        source slice <:+: css ∧ content slice = Text.trim (stripComments (source slice)) ∧
          (Clear slice → content slice = Text.trim (source (bare slice))) := by
  rw [Sheet.parse_eq_ok] at read
  obtain ⟨nodes, sliced⟩ := SlicedSheet.exists_of_ofTokens read
  rw [sliced.ofTokens] at read
  refine ⟨nodes, fun others => ⟨fun other => other.unique sliced, ?_⟩, ?_, ?_⟩
  · rintro rfl
    exact sliced
  · exact (Except.ok.inj read).symm
  · intro node member slice part
    obtain ⟨inside, u, scanned⟩ := scanned_of_isInfix (sliced.slices_isInfix node member slice part)
    refine ⟨inside, rfl, fun clear => ?_⟩
    rw [content, scanned.stripComments_source clear]

theorem Token.forall_isInfix {ts : List Token} {p : List Token → Prop}
    (all : ∀ back ∈ ts.tails, ∀ slice ∈ back.inits, p slice) (slice : List Token)
    (part : slice <:+: ts) : p slice := by
  obtain ⟨back, front, ends⟩ := List.infix_iff_prefix_suffix.mp part
  exact all back ((List.mem_tails _ _).mpr ends) slice ((List.mem_inits _ _).mpr front)

/-- Comments in a selector, in a prelude, in a block and around a value; none of them opens
elsewhere. -/
theorem Sheet.parse_slices_comments :
    let css : Text := "/* a */ @media print/* b */ \x7b /* c */ p \x7b\x7d \x7d " ++
      ".d/* e */>f \x7b g: \"h\" /* i */; \x7d"
    let sheet : Sheet := [.atRule ⟨"media", "print", some "p \x7b\x7d"⟩,
      .rule ⟨".d>f", [⟨"g", "\"h\""⟩]⟩]
    Sheet.parse css = .ok sheet ∧ ∃ nodes, SlicedSheet true (scan css) nodes ∧
      sheet = nodes.map SlicedNode.node ∧ ∀ node ∈ nodes, ∀ slice ∈ node.slices,
        source slice <:+: css ∧ content slice = Text.trim (source (bare slice)) := by
  intro css sheet
  have read : Sheet.parse css = .ok sheet := by decide +kernel
  have clear : ∀ slice, slice <:+: scan css → Clear slice := forall_isInfix (by decide +kernel)
  obtain ⟨nodes, layout, same, texts⟩ := Sheet.parse_slices read
  have sliced := (layout nodes).mpr rfl
  refine ⟨read, nodes, sliced, same, fun node member slice part => ?_⟩
  obtain ⟨inside, _, kept⟩ := texts node member slice part
  exact ⟨inside, kept (clear slice (sliced.slices_isInfix node member slice part))⟩

/-- A string that holds `/*` is cut off there, and no slice of the source without its comments is
what is left of it. -/
theorem Sheet.parse_slices_string :
    let css : Text := ".a::after \x7b content: \"/*\"; color: red; \x7d"
    Sheet.parse css = .ok [.rule ⟨".a::after", [⟨"content", "\""⟩, ⟨"color", "red"⟩]⟩] ∧
      ∀ slice, slice <:+: scan css → Text.trim (source (bare slice)) ≠ "\"" :=
  ⟨by decide +kernel, forall_isInfix (by decide +kernel)⟩

end ColorTheme.Css
