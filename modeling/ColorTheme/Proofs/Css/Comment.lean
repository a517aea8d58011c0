import ColorTheme.Proofs.Css.Legible
import ColorTheme.Proofs.Text.Trim

/-!
Comments as tokens and comments in the text. Where no comment opens in the tokens beside the
comments, what is cut out of the text are the comment tokens. -/
namespace ColorTheme.Css

/-- Inside a comment everything is cut out up to its end. -/
theorem stripComments_comment (text : Text) :
    stripComments ('/' :: '*' :: text) = stripComments (commentSpan text).2 := by
  have inside : stripComments.go true text = stripComments.go false (commentSpan text).2 := by
    fun_induction commentSpan text with
    | case1 => rfl
    | case2 rest => simp [stripComments.go]
    | case3 c rest opened ih =>
      rw [Span.cons, ← ih, stripComments.go.eq_def]
      split
      · contradiction
      · rename_i same
        obtain ⟨_, rfl⟩ := List.cons.inj same
        rfl
      · rename_i behind same
        obtain ⟨rfl, rfl⟩ := List.cons.inj same
        exact (opened behind rfl rfl).elim
      · rename_i same
        obtain ⟨_, rfl⟩ := List.cons.inj same
        rfl
  exact inside

theorem stripComments_cons {c : Char} {rest : Text} (plain : ¬"/*".toList <+: c :: rest) :
    stripComments (c :: rest) = c :: stripComments rest := by
  unfold stripComments
  rw [stripComments.go.eq_def]
  split
  · contradiction
  · rename_i behind same
    exact absurd ⟨behind, same.symm⟩ plain
  · rename_i same
    obtain ⟨rfl, rfl⟩ := List.cons.inj same
    rfl
  · rename_i same
    obtain ⟨rfl, rfl⟩ := List.cons.inj same
    rfl

/-- No comment opens in the text, not even with the first character of what follows it. -/
def Unopened (text rest : Text) : Prop :=
  ∀ back ∈ text.tails, back ≠ [] → ¬"/*".toList <+: back ++ rest

instance (text rest : Text) : Decidable (Unopened text rest) :=
  inferInstanceAs (Decidable (∀ back ∈ text.tails, back ≠ [] → ¬"/*".toList <+: back ++ rest))

theorem stripComments_append {x rest : Text} (plain : Unopened x rest) :
    stripComments (x ++ rest) = x ++ stripComments rest := by
  induction x with
  | nil => rfl
  | cons c x ih =>
    obtain ⟨first, plain⟩ := List.forall_mem_cons.mp plain
    have opens := first (List.cons_ne_nil c x)
    rw [List.cons_append] at opens ⊢
    rw [stripComments_cons opens, List.cons_append, ih plain]

def Kind.isPunctuation : Kind → Bool
  | .opening _ | .closing _ | .colon | .semicolon => true
  | _ => false

def Kind.isWord (kind : Kind) : Bool :=
  !kind.isPunctuation && kind ≠ .space && kind ≠ .comment

theorem stringSpan_word (quote : Char) (state : Escape) (text : Text) :
    (stringSpan quote state text).1.isWord = true := by
  induction text generalizing state with
  | nil => rfl
  | cons c rest ih =>
    unfold stringSpan
    dsimp only
    split
    · exact ih _
    · split
      · rfl
      · split
        · rfl
        · exact ih _

theorem urlEndSpan_word (text : Text) : (urlEndSpan text).1.isWord = true := by
  induction text with
  | nil => rfl
  | cons c rest ih =>
    unfold urlEndSpan
    split
    · rfl
    · split
      · exact ih
      · rfl

theorem urlBodySpan_word (state : Escape) (text : Text) :
    (urlBodySpan state text).1.isWord = true := by
  induction text generalizing state with
  | nil => rfl
  | cons c rest ih =>
    unfold urlBodySpan
    dsimp only
    split
    · exact ih _
    · split
      · exact urlEndSpan_word (c :: rest)
      · split
        · rfl
        · split
          · rfl
          · exact ih _

theorem urlSpan?_word {text : Text} {kind : Kind} {span : Span}
    (found : urlSpan? text = some (kind, span)) : kind.isWord = true := by
  unfold urlSpan? at found
  dsimp only at found
  split at found
  · cases found
    rfl
  · split at found
    · contradiction
    · split at found
      · cases found
        rfl
      · cases found
        exact urlBodySpan_word .outside _

namespace Token

theorem named_word (text : Text) : (named text).1.kind.isWord = true := by
  unfold named
  dsimp only
  split
  · split
    · rename_i found
      exact urlSpan?_word (Option.ite_none_right_eq_some.mp found).2
    · rfl
  · rfl

/-- What the kind of a token says about its text. -/
inductive Shape (t : Token) (rest : Text) : Prop
  | word (word : t.kind.isWord = true)
  | space (kind : t.kind = .space) (spaces : ∀ c ∈ t.text, isSpace c = true)
  | punctuation (c : Char) (sign : punctuation? c = some t.kind) (text : t.text = [c])
  | comment (kind : t.kind = .comment) (body : Text) (text : t.text = '/' :: '*' :: body)
    (split : commentSpan (body ++ rest) = (body, rest))

theorem next?_shape {text rest : Text} {t : Token} (found : next? text = some (t, rest)) :
    Shape t rest := by
  cases text with
  | nil => contradiction
  | cons c left =>
    replace found := Option.some.inj found
    split at found
    · cases found
      exact .space rfl fun _ => List.mem_takeWhile_imp
    · split at found
      · cases found
        exact .word (stringSpan_word c .outside left)
      · split at found
        · cases found
          exact .word rfl
        · split at found
          · cases found
            exact .word rfl
          · split at found
            · cases found
              exact .word rfl
            · split at found
              · have word := named_word (c :: left)
                rw [found] at word
                exact .word word
              · split at found
                · rename_i sign
                  cases found
                  exact .punctuation c sign rfl
                · split at found
                  · rename_i inner _
                    cases found
                    have body : (commentSpan inner).1 ++ (commentSpan inner).2 = inner :=
                      commentSpan_covers inner
                    exact .comment rfl (commentSpan inner).1 rfl (by rw [body])
                  · cases found
                    exact .word rfl
                  · cases found
                    exact .word rfl
                  · cases found
                    exact .word rfl

theorem punctuation?_isPunctuation {c : Char} {kind : Kind} (sign : punctuation? c = some kind) :
    kind.isPunctuation = true := by
  unfold punctuation? at sign
  split at sign
  case h_9 => contradiction
  all_goals
    cases sign
    rfl

def isComment (t : Token) : Bool := t.kind = .comment

def bare (ts : List Token) : List Token := ts.filter fun t => !t.isComment

def isFunction (t : Token) : Bool :=
  match t.kind with
  | .function _ => true
  | _ => false

/-- White space, or what ends a statement or bounds a block. -/
def isLoose (t : Token) : Bool :=
  t.kind = .space || t.isSemicolon || t.opensBlock || t.closesBlock

/-- Comments stand behind white space or punctuation, or in front of a loose token. -/
def parted : List Token → Bool
  | [] => true
  | t :: rest =>
    (!rest.head?.any isComment || t.isBlank || t.kind.isPunctuation ||
      !t.isFunction && (bare rest).head?.all isLoose) && parted rest

/-- The characters that loose tokens begin with. -/
def breaks : Text := " \t\n\r\x0c;\x7b\x7d"

/-- A token that neither blanks nor loose tokens can change. -/
structure Firm (t : Token) : Prop where
  trimmed : Text.trim t.text = t.text
  read : t.isFunction = false → ∀ c ∈ breaks, next? (t.text ++ [c]) = some (t, [c])

instance (t : Token) : Decidable t.Firm :=
  decidable_of_iff (Text.trim t.text = t.text ∧ (t.isFunction = false →
      (breaks.all fun c => next? (t.text ++ [c]) = some (t, [c])) = true))
    ⟨fun ⟨trimmed, read⟩ => ⟨trimmed, by simpa using read⟩,
      fun firm => ⟨firm.trimmed, by simpa using firm.read⟩⟩

theorem source_cons (t : Token) (ts : List Token) : source (t :: ts) = t.text ++ source ts := rfl

/-- No comment opens in a token that is none. -/
def Clear : List Token → Prop
  | [] => True
  | t :: rest => (t.isComment = true ∨ Unopened t.text (source rest)) ∧ Clear rest

instance decidableClear : DecidablePred Clear
  | [] => inferInstanceAs (Decidable True)
  | t :: rest =>
    have := decidableClear rest
    inferInstanceAs (Decidable ((t.isComment = true ∨ Unopened t.text (source rest)) ∧ Clear rest))

/-- Tokens that are still the same when the comments among them are cut out. -/
structure Orderly (ts : List Token) : Prop where
  firm : ∀ t ∈ ts, t.kind ≠ .space → t.Firm
  parted : parted ts = true
  plain : ¬"/*".toList <:+: source (bare ts)

theorem bare_cons_comment {t : Token} (comment : t.isComment = true) (ts : List Token) :
    bare (t :: ts) = bare ts := by simp [bare, comment]

theorem bare_cons_other {t : Token} (other : t.isComment = false) (ts : List Token) :
    bare (t :: ts) = t :: bare ts := by simp [bare, other]

theorem bare_append (front back : List Token) :
    bare (front ++ back) = bare front ++ bare back := List.filter_append _ _

theorem isComment_iff {t : Token} : t.isComment = true ↔ t.kind = .comment := decide_eq_true_iff

theorem Shape.exists_body {t : Token} {rest : Text} (shape : Shape t rest)
    (kind : t.kind = .comment) : ∃ body, t.text = '/' :: '*' :: body ∧
      commentSpan (body ++ rest) = (body, rest) := by
  cases shape with
  | word word =>
    rw [kind] at word
    contradiction
  | space other =>
    rw [kind] at other
    contradiction
  | punctuation c sign =>
    rw [kind] at sign
    exact absurd (punctuation?_isPunctuation sign) (by decide)
  | comment _ body text split => exact ⟨body, text, split⟩

theorem Firm.comment {t : Token} (firm : t.Firm) (comment : t.isComment = true) : ∃ body,
    t.text = '/' :: '*' :: body ∧ ∀ rest, commentSpan (body ++ rest) = (body, rest) := by
  rw [isComment_iff] at comment
  have other : t.isFunction = false := by simp [isFunction, comment]
  have found := firm.read other ';' (by decide)
  obtain ⟨body, text, split⟩ := (next?_shape found).exists_body comment
  exact ⟨body, text, commentSpan_closed split (List.cons_ne_nil _ _)⟩

namespace Orderly

variable {front back ts : List Token}

theorem tail {t : Token} (orderly : Orderly (t :: ts)) : Orderly ts where
  firm other member := orderly.firm other (List.mem_cons_of_mem t member)
  parted := by
    have parted := orderly.parted
    rw [Token.parted, Bool.and_eq_true] at parted
    exact parted.2
  plain found := by
    refine orderly.plain (found.trans ?_)
    cases comment : t.isComment with
    | true =>
      have same : source (bare (t :: ts)) = source (bare ts) :=
        congrArg source (bare_cons_comment comment ts)
      exact same ▸ List.infix_rfl
    | false =>
      rw [bare_cons_other comment, source_cons]
      exact (List.suffix_append _ _).isInfix

theorem drop (orderly : Orderly (front ++ back)) : Orderly back := by
  induction front with
  | nil => exact orderly
  | cons t front ih => exact ih orderly.tail

theorem take (orderly : Orderly (front ++ back)) : Orderly front where
  firm t member := orderly.firm t (List.mem_append_left back member)
  parted := by
    induction front with
    | nil => rfl
    | cons t front ih =>
      have parted := orderly.parted
      rw [List.cons_append, Token.parted, Bool.and_eq_true] at parted
      obtain ⟨here, _⟩ := parted
      rw [Token.parted, Bool.and_eq_true]
      refine ⟨?_, ih orderly.tail⟩
      cases front with
      | nil => rfl
      | cons s front =>
        -- Where the next token is cut off, nothing has to be loose.
        have loose : (bare (s :: front ++ back)).head?.all isLoose = true →
            (bare (s :: front)).head?.all isLoose = true := by
          rw [bare_append]
          cases bare (s :: front) with
          | nil => simp
          | cons first more => simp
        simp only [Bool.or_eq_true, Bool.and_eq_true] at here ⊢
        exact here.imp id (And.imp id loose)
  plain found := by
    refine orderly.plain (found.trans ?_)
    rw [bare_append, source_append]
    exact (List.prefix_append _ _).isInfix

/-- What opens no comment among the other tokens opens none in one of them. -/
theorem clear (orderly : Orderly ts) (filled : ∀ t ∈ ts, t.text ≠ []) : Clear ts := by
  induction ts with
  | nil => trivial
  | cons t ts ih =>
    obtain ⟨first, filled⟩ := List.forall_mem_cons.mp filled
    refine ⟨?_, ih orderly.tail filled⟩
    cases comment : t.isComment with
    | true => exact .inl rfl
    | false =>
      have plain := orderly.plain
      rw [bare_cons_other comment, source_cons] at plain
      right
      -- A comment that begins inside `t` would still be there without the comment tokens.
      rintro back ends filled ⟨rest, opens⟩
      obtain ⟨start, whole⟩ := (List.mem_tails _ _).mp ends
      replace opens : '/' :: '*' :: rest = back ++ source ts := opens
      rcases back with _ | ⟨d, _ | ⟨e, back⟩⟩
      · contradiction
      · obtain ⟨rfl, star⟩ := List.cons.inj opens
        cases ts with
        | nil => contradiction
        | cons s ts =>
          obtain ⟨c, more, text⟩ := List.exists_cons_of_ne_nil (List.forall_mem_cons.mp filled).1
          replace star : '*' :: rest = s.text ++ source ts := star
          rw [text] at star
          obtain ⟨rfl, _⟩ := List.cons.inj star
          have other : s.isComment = false := by
            rw [← Bool.not_eq_true]
            intro comment
            have firm := orderly.firm s (by simp) (by simp [isComment_iff.mp comment])
            obtain ⟨_, spelled, _⟩ := firm.comment comment
            rw [text] at spelled
            exact absurd (List.cons.inj spelled).1 (by decide)
          refine plain ⟨start, more ++ source (bare ts), ?_⟩
          simp [← whole, bare_cons_other other, source_cons, text]
      · obtain ⟨rfl, second⟩ := List.cons.inj opens
        obtain ⟨rfl, _⟩ := List.cons.inj second
        refine plain ⟨start, back ++ source (bare ts), ?_⟩
        simp [← whole]

end Orderly
end Token
end ColorTheme.Css
