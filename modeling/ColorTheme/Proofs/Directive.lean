import ColorTheme.UserSheet
import ColorTheme.Proofs.Text.Lines
import Mathlib.Data.List.Zip

/-!
Import directives of a user's sheet as they can be read on a line. Whatever stands between two
quotation marks may be the target, so a line has a reading for every mark with a semicolon behind
it; the search takes the one that begins first and ends last. -/
namespace ColorTheme.UserSheet

structure Directive where
  opening : Char
  target : Text
  closing : Char
deriving DecidableEq, Repr

namespace Directive

def keyword : Text := "@import "

def text (d : Directive) : Text := keyword ++ d.opening :: (d.target ++ [d.closing, ';'])

def Quoted (d : Directive) : Prop :=
  Variable.isQuote d.opening = true ∧ Variable.isQuote d.closing = true

theorem text_append (d : Directive) (back : Text) :
    d.text ++ back = keyword ++ d.opening :: (d.target ++ d.closing :: ';' :: back) := by
  simp [text]

theorem after_text (d : Directive) (back : Text) : Text.after? "@import " (d.text ++ back) =
    some (d.opening :: (d.target ++ d.closing :: ';' :: back)) :=
  Text.after?_eq_some.mpr (d.text_append back)

instance (d : Directive) : Decidable d.Quoted := inferInstanceAs (Decidable (_ ∧ _))

end Directive

/-- A way to read a directive on a line. -/
structure Reading where
  front : Text
  directive : Directive
  back : Text
deriving DecidableEq, Repr

def Reads (line : Text) (r : Reading) : Prop :=
  line = r.front ++ (r.directive.text ++ r.back) ∧ r.directive.Quoted

instance (line : Text) (r : Reading) : Decidable (Reads line r) :=
  inferInstanceAs (Decidable (_ ∧ _))

/-- The reading that begins first and ends last. -/
def Widest (line : Text) (r : Reading) : Prop :=
  Reads line r ∧ ∀ other, Reads line other →
    r.front.length ≤ other.front.length ∧ r.back.length ≤ other.back.length

/-- A directive whose target ends here, and what it leaves over. -/
def closed? (opening : Char) (target : Text) : Text → Option (Directive × Text)
  | closing :: c :: back =>
    let d : Directive := ⟨opening, target, closing⟩
    if c = ';' ∧ d.Quoted then some (d, back) else none
  | _ => none

/-- The directives that may be read from here on, each with what it leaves over. -/
def directivesFrom (here : Text) : List (Directive × Text) :=
  match Text.after? "@import " here with
  | some (opening :: rest) =>
    (rest.inits.zip rest.tails).filterMap fun (target, behind) => closed? opening target behind
  | _ => []

/-- All readings of a line. -/
def readings (line : Text) : List Reading :=
  (line.inits.zip line.tails).flatMap fun (front, here) =>
    (directivesFrom here).map fun (d, back) => ⟨front, d, back⟩

theorem closed?_eq_some {opening : Char} {target behind back : Text} {d : Directive} :
    closed? opening target behind = some (d, back) ↔
      d.opening = opening ∧ d.target = target ∧ behind = d.closing :: ';' :: back ∧ d.Quoted := by
  constructor
  · intro closed
    unfold closed? at closed
    split at closed
    · obtain ⟨⟨rfl, quoted⟩, same⟩ := Option.ite_none_right_eq_some.mp closed
      cases same
      exact ⟨rfl, rfl, rfl, quoted⟩
    · contradiction
  · rintro ⟨rfl, rfl, rfl, quoted⟩
    exact if_pos ⟨rfl, quoted⟩

theorem mem_directivesFrom {here back : Text} {d : Directive} :
    (d, back) ∈ directivesFrom here ↔ here = d.text ++ back ∧ d.Quoted := by
  constructor
  · intro member
    unfold directivesFrom at member
    split at member
    · rename_i opening rest after
      obtain ⟨⟨target, behind⟩, place, closed⟩ := List.mem_filterMap.mp member
      obtain ⟨rfl, rfl, rfl, quoted⟩ := closed?_eq_some.mp closed
      rw [← List.mem_zip_inits_tails.mp place] at after
      exact ⟨(Text.after?_eq_some.mp after).trans (d.text_append back).symm, quoted⟩
    · contradiction
  · rintro ⟨rfl, quoted⟩
    rw [directivesFrom, d.after_text back]
    refine List.mem_filterMap.mpr ⟨(d.target, d.closing :: ';' :: back), ?_, ?_⟩
    · exact List.mem_zip_inits_tails.mpr rfl
    · exact closed?_eq_some.mpr ⟨rfl, rfl, rfl, quoted⟩

theorem mem_readings {line : Text} {r : Reading} : r ∈ readings line ↔ Reads line r := by
  constructor
  · intro member
    obtain ⟨⟨front, here⟩, place, inner⟩ := List.mem_flatMap.mp member
    obtain ⟨⟨d, back⟩, begins, rfl⟩ := List.mem_map.mp inner
    obtain ⟨rfl, quoted⟩ := mem_directivesFrom.mp begins
    exact ⟨(List.mem_zip_inits_tails.mp place).symm, quoted⟩
  · rintro ⟨rfl, quoted⟩
    refine List.mem_flatMap.mpr ⟨(r.front, r.directive.text ++ r.back), ?_, ?_⟩
    · exact List.mem_zip_inits_tails.mpr rfl
    · exact List.mem_map.mpr ⟨(r.directive, r.back), mem_directivesFrom.mpr ⟨rfl, quoted⟩, rfl⟩

instance (line : Text) (P : Reading → Prop) [DecidablePred P] :
    Decidable (∀ r, Reads line r → P r) :=
  decidable_of_iff (∀ r ∈ readings line, P r) (by simp only [mem_readings])

instance (line : Text) (r : Reading) : Decidable (Widest line r) :=
  inferInstanceAs (Decidable (Reads line r ∧ ∀ other, Reads line other →
    r.front.length ≤ other.front.length ∧ r.back.length ≤ other.back.length))

/-- No mark with a semicolon behind it. -/
def Unclosed (text : Text) : Prop :=
  ∀ c back, Variable.isQuote c = true → ¬c :: ';' :: back <:+ text

theorem Unclosed.suffix {text rest : Text} (unclosed : Unclosed text) (suffix : rest <:+ text) :
    Unclosed rest :=
  fun c back quote inside => unclosed c back quote (inside.trans suffix)

theorem unclosed_cons {c : Char} {rest : Text} : Unclosed (c :: rest) ↔
    (Variable.isQuote c = true → rest.head? ≠ some ';') ∧ Unclosed rest := by
  constructor
  · intro unclosed
    refine ⟨fun quote semicolon => ?_, unclosed.suffix (List.suffix_cons c rest)⟩
    obtain ⟨back, rfl⟩ := List.head?_eq_some_iff.mp semicolon
    exact unclosed c back quote List.suffix_rfl
  · rintro ⟨first, later⟩ d back quote inside
    rcases List.suffix_cons_iff.mp inside with same | behind
    · obtain ⟨rfl, rfl⟩ := List.cons.inj same
      exact first quote rfl
    · exact later d back quote behind

theorem isQuote_eq (c : Char) : (c = '"' || c = '\'') = Variable.isQuote c := Bool.or_comm _ _

theorem lastQuote?_eq_none {text : Text} :
    importDirective.lastQuote? text = none ↔ Unclosed text := by
  induction text with
  | nil => simp [importDirective.lastQuote?, Unclosed]
  | cons c rest ih =>
    unfold importDirective.lastQuote?
    rw [unclosed_cons, ← ih, isQuote_eq]
    cases known : importDirective.lastQuote? rest with
    | none => simp
    | some found => simp

/-- The last mark with a semicolon behind it is the one behind which there is no other. -/
theorem lastQuote?_eq_some {text target left : Text} :
    importDirective.lastQuote? text = some (target, left) ↔
      (∃ c, Variable.isQuote c = true ∧ text = target ++ c :: ';' :: left) ∧ Unclosed left := by
  constructor
  · intro found
    induction text generalizing target with
    | nil => contradiction
    | cons c rest ih =>
      unfold importDirective.lastQuote? at found
      split at found
      · rename_i inner behind known
        cases found
        obtain ⟨⟨d, quote, rfl⟩, unclosed⟩ := ih known
        exact ⟨⟨d, quote, rfl⟩, unclosed⟩
      · rename_i missed
        obtain ⟨here, same⟩ := Option.ite_none_right_eq_some.mp found
        cases same
        rw [isQuote_eq, Bool.and_eq_true_iff, decide_eq_true_eq] at here
        obtain ⟨left, rfl⟩ := List.head?_eq_some_iff.mp here.2
        exact ⟨⟨c, here.1, rfl⟩, (lastQuote?_eq_none.mp missed).suffix (List.suffix_cons ';' left)⟩
  · rintro ⟨⟨c, quote, rfl⟩, unclosed⟩
    induction target with
    | nil =>
      have behind : importDirective.lastQuote? (';' :: left) = none :=
        lastQuote?_eq_none.mpr (unclosed_cons.mpr ⟨fun mark => absurd mark (by decide), unclosed⟩)
      rw [List.nil_append, importDirective.lastQuote?, behind, isQuote_eq, quote]
      rfl
    | cons d target ih => rw [List.cons_append, importDirective.lastQuote?, ih]

theorem lastQuote?_line {text target behind : Text} :
    importDirective.lastQuote? (text.takeWhile (· ≠ '\n')) = some (target, behind) ↔
      ∃ c left, Variable.isQuote c = true ∧ '\n' ∉ target ∧ text = target ++ c :: ';' :: left ∧
        behind = left.takeWhile (· ≠ '\n') ∧ Unclosed behind := by
  rw [lastQuote?_eq_some]
  constructor
  · rintro ⟨⟨c, quote, line⟩, unclosed⟩
    have others : ∀ d ∈ target ++ c :: ';' :: behind, decide (d ≠ '\n') = true :=
      List.all_eq_true.mp (line ▸ List.all_takeWhile)
    refine ⟨c, behind ++ text.dropWhile (· ≠ '\n'), quote, fun feed => ?_, ?_, ?_, unclosed⟩
    · exact absurd (others _ (List.mem_append_left _ feed)) (by decide)
    · calc text
        _ = text.takeWhile (· ≠ '\n') ++ text.dropWhile (· ≠ '\n') :=
          List.takeWhile_append_dropWhile.symm
        _ = target ++ c :: ';' :: (behind ++ text.dropWhile (· ≠ '\n')) := by
          rw [line, List.append_assoc, List.cons_append, List.cons_append]
    · have closed := Text.dropWhile_closed (fun d => decide (d ≠ '\n')) text
      exact (Text.run_append (fun d member => others d (by simp [member])) closed).1.symm
  · rintro ⟨c, left, quote, single, rfl, rfl, unclosed⟩
    have inner : ∀ d ∈ target, decide (d ≠ '\n') = true := fun d member =>
      decide_eq_true fun same => single (same ▸ member)
    have other : c ≠ '\n' := fun same => absurd (same ▸ quote) (by decide)
    refine ⟨⟨c, quote, ?_⟩, unclosed⟩
    rw [List.takeWhile_append_of_pos inner]
    simp [other]

theorem Directive.cover (d : Directive) (left : Text) :
    (d.target ++ d.closing :: ';' :: left).drop (d.target.length + 2) = left ∧
      (d.text ++ left).take ((d.text ++ left).length - left.length) = d.text := by
  constructor
  · simp [List.drop_append]
  · rw [List.length_append, Nat.add_sub_cancel, List.take_left]

theorem importDirective_eq_some {before : Option Char} {here found target left : Text} :
    importDirective before here = some ((found, target), left) ↔
      ∃ d : Directive, d.Quoted ∧ '\n' ∉ d.target ∧ found = d.text ∧ target = d.target ∧
        here = d.text ++ left ∧ Unclosed (left.takeWhile (· ≠ '\n')) := by
  constructor
  · intro hit
    simp only [importDirective, Option.bind_eq_bind, Option.bind_eq_some_iff] at hit
    obtain ⟨text, after, hit⟩ := hit
    split at hit
    · contradiction
    · rename_i c rest
      obtain ⟨opens, hit⟩ := Option.ite_none_right_eq_some.mp hit
      obtain ⟨⟨inner, _⟩, last, same⟩ := Option.bind_eq_some_iff.mp hit
      obtain ⟨closing, behind, closes, single, rfl, rfl, unclosed⟩ := lastQuote?_line.mp last
      let d : Directive := ⟨c, inner, closing⟩
      have whole : here = d.text ++ behind :=
        (Text.after?_eq_some.mp after).trans (d.text_append behind).symm
      have cover := d.cover behind
      rw [← whole] at cover
      simp only [d, cover] at same
      cases same
      exact ⟨d, ⟨isQuote_eq c ▸ opens, closes⟩, single, rfl, rfl, whole, unclosed⟩
  · rintro ⟨d, ⟨opens, closes⟩, single, rfl, rfl, rfl, unclosed⟩
    have last := lastQuote?_line.mpr ⟨d.closing, left, closes, single, rfl, rfl, unclosed⟩
    rw [importDirective, d.after_text left]
    simp only [Option.bind_eq_bind, Option.bind_some, isQuote_eq, opens, if_true, last,
      (d.cover left).1, (d.cover left).2]
    rfl

theorem Directive.text_ne_nil (d : Directive) : d.text ≠ [] := by simp [text]

theorem importDirective_local : importDirective.Local where
  blind _ _ _ := rfl
  covers hit := by
    obtain ⟨d, _, _, _, _, rfl, _⟩ := importDirective_eq_some.mp hit
    obtain ⟨c, used, text⟩ := List.exists_cons_of_ne_nil d.text_ne_nil
    exact ⟨c, used, by rw [text]⟩

theorem Directive.notMem_text {d : Directive} (quoted : d.Quoted) (single : '\n' ∉ d.target) :
    '\n' ∉ d.text := by
  obtain ⟨opens, closes⟩ := quoted
  have first : '\n' ≠ d.opening := fun same => absurd (same ▸ opens) (by decide)
  have last : '\n' ≠ d.closing := fun same => absurd (same ▸ closes) (by decide)
  have word : '\n' ∉ keyword := by decide
  simp [text, word, first, last, single]

theorem importDirective_inLine : importDirective.InLine := by
  intro before line rest single
  refine Option.ext fun ⟨⟨found, target⟩, left⟩ => ?_
  rw [Option.map_eq_some_iff, importDirective_eq_some]
  constructor
  · rintro ⟨d, quoted, inner, rfl, rfl, whole, unclosed⟩
    obtain ⟨more, rfl, rfl⟩ := Text.split_behind whole.symm (Directive.notMem_text quoted inner)
    rw [Text.takeWhile_line (by decide)] at unclosed
    exact ⟨((d.text, d.target), more),
      importDirective_eq_some.mpr ⟨d, quoted, inner, rfl, rfl, rfl, unclosed⟩, rfl⟩
  · rintro ⟨⟨_, more⟩, hit, same⟩
    cases same
    obtain ⟨d, quoted, inner, rfl, rfl, rfl, unclosed⟩ := importDirective_eq_some.mp hit
    refine ⟨d, quoted, inner, rfl, rfl, by simp, ?_⟩
    rwa [Text.takeWhile_line (by decide)]

theorem takeWhile_single {line : Text} (single : '\n' ∉ line) :
    line.takeWhile (· ≠ '\n') = line :=
  List.takeWhile_eq_self_iff.mpr fun _ member => decide_eq_true fun same => single (same ▸ member)

theorem exists_importDirective {line back : Text} {d : Directive} (single : '\n' ∉ line)
    (quoted : d.Quoted) (whole : line = d.text ++ back) :
    ∃ hit, importDirective none line = some hit := by
  subst whole
  have closes : importDirective.lastQuote? (d.target ++ d.closing :: ';' :: back) ≠ none :=
    fun missed => lastQuote?_eq_none.mp missed d.closing back quoted.2 (List.suffix_append _ _)
  obtain ⟨⟨target, left⟩, last⟩ := Option.ne_none_iff_exists'.mp closes
  obtain ⟨⟨c, quote, split⟩, unclosed⟩ := lastQuote?_eq_some.mp last
  let e : Directive := ⟨d.opening, target, c⟩
  have same : d.text ++ back = e.text ++ left := by rw [d.text_append, e.text_append, split]
  rw [same] at single ⊢
  have line : '\n' ∉ left := fun member => single (List.mem_append_right _ member)
  refine ⟨_, importDirective_eq_some.mpr ⟨e, ⟨quoted.1, quote⟩, ?_, rfl, rfl, rfl, ?_⟩⟩
  · intro feed
    exact single (by simp [Directive.text, e, feed])
  · rwa [takeWhile_single line]

theorem Reads.append {line : Text} {r : Reading} (reads : Reads line r) (start : Text) :
    Reads (start ++ line) { r with front := start ++ r.front } :=
  ⟨by rw [List.append_assoc, ← reads.1], reads.2⟩

theorem Reads.tail {c : Char} {rest : Text} {r : Reading} (single : '\n' ∉ c :: rest)
    (missed : importDirective none (c :: rest) = none) (reads : Reads (c :: rest) r) :
    ∃ front, r.front = c :: front ∧ Reads rest { r with front } := by
  obtain ⟨whole, quoted⟩ := reads
  cases known : r.front with
  | nil =>
    rw [known, List.nil_append] at whole
    obtain ⟨hit, found⟩ := exists_importDirective single quoted whole
    rw [missed] at found
    contradiction
  | cons d front =>
    rw [known, List.cons_append] at whole
    obtain ⟨rfl, later⟩ := List.cons.inj whole
    exact ⟨front, rfl, later, quoted⟩

theorem Reads.closes {line : Text} {r : Reading} (reads : Reads line r) :
    r.directive.closing :: ';' :: r.back <:+ line := by
  obtain ⟨rfl, _⟩ := reads
  refine ⟨r.front ++ (Directive.keyword ++ r.directive.opening :: r.directive.target), ?_⟩
  simp [Directive.text]

theorem Unclosed.unread {line : Text} (unclosed : Unclosed line) (r : Reading) : ¬Reads line r :=
  fun reads => unclosed r.directive.closing r.back reads.2.2 reads.closes

theorem Unclosed.length_le {start left : Text} {r : Reading} (unclosed : Unclosed left)
    (reads : Reads (start ++ ';' :: left) r) : left.length ≤ r.back.length := by
  by_contra longer
  have behind : Unclosed (';' :: left) :=
    unclosed_cons.mpr ⟨fun mark => absurd mark (by decide), unclosed⟩
  refine behind r.directive.closing r.back reads.2.2 ?_
  refine List.suffix_of_suffix_length_le reads.closes (List.suffix_append start _) ?_
  simp only [List.length_cons]
  omega

/-- A directive behind whose last mark no other closes is read as far as it can be. -/
theorem Unclosed.widest {d : Directive} {left : Text} (unclosed : Unclosed left)
    (quoted : d.Quoted) : Widest (d.text ++ left) ⟨[], d, left⟩ := by
  refine ⟨⟨rfl, quoted⟩, fun other reads => ⟨Nat.zero_le _, ?_⟩⟩
  have split : d.text ++ left =
      (Directive.keyword ++ d.opening :: (d.target ++ [d.closing])) ++ ';' :: left := by
    simp [Directive.text]
  rw [split] at reads
  exact unclosed.length_le reads

theorem Widest.cons {c : Char} {rest : Text} {r : Reading} (widest : Widest rest r)
    (single : '\n' ∉ c :: rest) (missed : importDirective none (c :: rest) = none) :
    Widest (c :: rest) { r with front := c :: r.front } := by
  refine ⟨widest.1.append [c], fun other reads => ?_⟩
  obtain ⟨front, known, inner⟩ := reads.tail single missed
  have limits : r.front.length ≤ front.length ∧ r.back.length ≤ other.back.length :=
    widest.2 _ inner
  simp only [known, List.length_cons]
  omega

theorem Directive.text_inj {d e : Directive} (same : d.text = e.text) : d = e := by
  obtain ⟨opening, later⟩ := List.cons.inj (List.append_cancel_left same)
  obtain ⟨target, closing⟩ := List.append_inj' later rfl
  cases d
  cases e
  simp_all

theorem Widest.unique {line : Text} {r s : Reading} (first : Widest line r)
    (second : Widest line s) : r = s := by
  have fronts := le_antisymm (first.2 s second.1).1 (second.2 r first.1).1
  have backs := le_antisymm (first.2 s second.1).2 (second.2 r first.1).2
  have whole := first.1.1.symm.trans second.1.1
  obtain ⟨front, later⟩ := List.append_inj whole fronts
  obtain ⟨text, back⟩ := List.append_inj' later backs
  have directive := Directive.text_inj text
  cases r
  cases s
  simp_all

end ColorTheme.UserSheet
