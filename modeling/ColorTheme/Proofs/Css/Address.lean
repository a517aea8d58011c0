import ColorTheme.Proofs.Css.Slice

/-!
Declarations with an address. A value keeps the address if neither its beginning nor its closing
bracket is cut out with what looks like a comment; then the reduced sheet lacks the declaration. -/
namespace ColorTheme

namespace Text

theorem trim_around {c d : Char} (first : isBlank c = false) (last : isBlank d = false)
    (front inner back : Text) : ∃ before after,
      trim (front ++ (c :: inner ++ d :: back)) = before ++ (c :: inner ++ d :: after) := by
  have start : ∀ (front rest : Text) {c : Char}, isBlank c = false → ∃ before,
      (front ++ c :: rest).dropWhile isBlank = before ++ c :: rest := by
    intro front rest c solid
    induction front with
    | nil => exact ⟨[], List.dropWhile_cons_of_neg (by simp [solid])⟩
    | cons b front ih =>
      rw [List.cons_append, List.dropWhile_cons]
      split
      · exact ih
      · exact ⟨b :: front, rfl⟩
  obtain ⟨before, cut⟩ := start front (inner ++ d :: back) first
  obtain ⟨after, ends⟩ := start back.reverse (before ++ c :: inner).reverse last
  refine ⟨before, after.reverse, ?_⟩
  rw [trim, trimStart, List.cons_append, cut, trimEnd]
  have turned : (before ++ c :: (inner ++ d :: back)).reverse =
      back.reverse ++ d :: (before ++ c :: inner).reverse := by simp
  rw [turned, ends]
  simp

end Text

namespace Css

open Token

/-- Whether a comment that the cutting of comments sees is still open behind a text. -/
def insideComment : (inside : Bool) → Text → Bool
  | inside, [] => inside
  | inside, '/' :: '*' :: rest =>
    if inside then insideComment true ('*' :: rest) else insideComment true rest
  | inside, '*' :: '/' :: rest =>
    if inside then insideComment false rest else insideComment false ('/' :: rest)
  | inside, _ :: rest => insideComment inside rest

theorem stripComments_go_cons {d : Char} {rest : Text}
    (opening : ∀ more, d = '/' → rest = '*' :: more → False)
    (closing : ∀ more, d = '*' → rest = '/' :: more → False) (inside : Bool) :
    stripComments.go inside (d :: rest) =
      (if inside then [] else [d]) ++ stripComments.go inside rest := by
  rw [stripComments.go.eq_def]
  split
  · contradiction
  · rename_i more same
    obtain ⟨rfl, rfl⟩ := List.cons.inj same
    exact (opening more rfl rfl).elim
  · rename_i more same
    obtain ⟨rfl, rfl⟩ := List.cons.inj same
    exact (closing more rfl rfl).elim
  · rename_i same
    obtain ⟨rfl, rfl⟩ := List.cons.inj same
    cases inside <;> rfl

theorem stripComments_go_append {c : Char} (star : c ≠ '*') (slash : c ≠ '/') (inside : Bool)
    (text rest : Text) : stripComments.go inside (text ++ c :: rest) =
      stripComments.go inside text ++ stripComments.go (insideComment inside text) (c :: rest) := by
  fun_induction insideComment inside text with
  | case1 inside =>
    rw [List.nil_append, stripComments.go]
    rfl
  | case2 more ih => exact ih
  | case3 inside more out ih =>
    obtain rfl : inside = false := by simpa using out
    exact ih
  | case4 more ih => exact ih
  | case5 inside more out ih =>
    obtain rfl : inside = false := by simpa using out
    exact congrArg ('*' :: ·) ih
  | case6 inside d more opening closing ih =>
    have still : ∀ mark : Char, c ≠ mark → ∀ last, more ++ c :: rest = mark :: last →
        ∃ last, more = mark :: last := by
      intro mark other last same
      cases more with
      | nil => exact absurd (List.cons.inj same).1 other
      | cons e more => exact ⟨more, by rw [(List.cons.inj same).1]⟩
    rw [List.cons_append, stripComments_go_cons, stripComments_go_cons opening closing, ih,
      List.append_assoc]
    · intro last first same
      obtain ⟨last, same⟩ := still '*' star last same
      exact opening last first same
    · intro last first same
      obtain ⟨last, same⟩ := still '/' slash last same
      exact closing last first same

theorem stripComments_append_cons {c : Char} (star : c ≠ '*') (slash : c ≠ '/') {text : Text}
    (outside : insideComment false text = false) (rest : Text) :
    stripComments (text ++ c :: rest) = stripComments text ++ stripComments (c :: rest) := by
  have whole := stripComments_go_append star slash false text rest
  rw [outside] at whole
  exact whole

/-- An address and what stands between its brackets: one token, or a function up to a closing
bracket. -/
inductive Address : List Token → Text → Prop
  | token {t : Token} {inside : Text} (kind : t.kind = .url)
      (text : t.text = "url(" ++ inside ++ ")") : Address [t] inside
  | function {t : Token} {name : Text} {inner : List Token} (kind : t.kind = .function name)
      (text : t.text = "url(") : Address (t :: inner ++ [⟨.closing .round, ")"⟩]) (source inner)

theorem Address.source_eq {ts : List Token} {inside : Text} (address : Address ts inside) :
    source ts = "url(" ++ inside ++ ")" := by
  cases address with
  | token kind text => simp [source, text]
  | function kind text => simp [source, text]

theorem referencesUrl_cons {c : Char} {rest : Text} (bracket : ')' ∈ rest)
    (later : referencesUrl rest = true) : referencesUrl (c :: rest) = true := by
  rw [referencesUrl, Text.cut?]
  cases here : Text.after? "url(" (c :: rest) with
  | some tail =>
    have whole : ')' ∈ ("url(" : Text) ++ tail :=
      Text.after?_eq_some.mp here ▸ List.mem_cons_of_mem c bracket
    exact List.contains_iff_mem.mpr ((List.mem_append.mp whole).resolve_left (by decide))
  | none =>
    rw [referencesUrl] at later
    cases found : Text.cut? "url(" rest with
    | none =>
      rw [found] at later
      contradiction
    | some parts =>
      rw [found] at later
      exact later

theorem referencesUrl_of_address (front inside back : Text) :
    referencesUrl (front ++ ("url(" ++ inside ++ ")" ++ back)) = true := by
  induction front with
  | nil => simp [referencesUrl, Text.cut?, Text.after?]
  | cons c front ih => exact referencesUrl_cons (by simp) ih

theorem referencesUrl_content {before address back : List Token} {inside : Text}
    (is : Address address inside) (opening : insideComment false (source before) = false)
    (closing : insideComment false inside = false) :
    referencesUrl (content (before ++ address ++ back)) = true := by
  have text : source (before ++ address ++ back) =
      source before ++ 'u' :: 'r' :: 'l' :: '(' :: (inside ++ ')' :: source back) := by
    rw [source_append, source_append, is.source_eq]
    simp
  have address : stripComments ('u' :: 'r' :: 'l' :: '(' :: (inside ++ ')' :: source back)) =
      'u' :: 'r' :: 'l' :: '(' :: (stripComments inside ++ ')' :: stripComments (source back)) := by
    have plain : ∀ {c : Char} {rest : Text}, c ≠ '/' →
        stripComments (c :: rest) = c :: stripComments rest := by
      intro c rest other
      exact stripComments_cons fun opens => other (List.cons_prefix_cons.mp opens).1.symm
    rw [plain (by decide), plain (by decide), plain (by decide), plain (by decide),
      stripComments_append_cons (by decide) (by decide) closing, plain (by decide)]
  rw [content, text, stripComments_append_cons (by decide) (by decide) opening, address]
  obtain ⟨before, after, trimmed⟩ := Text.trim_around (c := 'u') (d := ')') (by decide) (by decide)
    (stripComments (source before)) ('r' :: 'l' :: '(' :: stripComments inside)
    (stripComments (source back))
  have kept := referencesUrl_of_address before (stripComments inside) after
  simp only [List.cons_append] at trimmed
  rw [trimmed]
  simpa using kept

/-- A declaration of a rule whose value holds an address is not in the reduced sheet, if neither the
beginning nor the closing bracket of the address is cut out with what looks like a comment. -/
theorem Sheet.reduce_address {css : Text} {sheet : Sheet} {nodes : List SlicedNode}
    (read : Sheet.parse css = .ok sheet) (sliced : SlicedSheet true (scan css) nodes)
    {selector before address back : List Token} {ds : List (Text × List Token)}
    {property inside : Text} (listed : .rule selector ds ∈ nodes)
    (declared : (property, before ++ address ++ back) ∈ ds)
    (is : Address address inside) (opening : insideComment false (source before) = false)
    (closing : insideComment false inside = false) :
    (∃ r, .rule r ∈ sheet ∧ ⟨property, content (before ++ address ++ back)⟩ ∈ r.declarations) ∧
      ∀ r, .rule r ∈ sheet.reduce →
        ⟨property, content (before ++ address ++ back)⟩ ∉ r.declarations := by
  rw [Sheet.parse_eq_ok, sliced.ofTokens] at read
  obtain rfl := Except.ok.inj read
  constructor
  · exact ⟨_, List.mem_map_of_mem listed, List.mem_map_of_mem declared⟩
  · intro r member kept
    obtain ⟨old, reduced, _, kept, same⟩ := Sheet.mem_reduce member
    obtain ⟨_, rfl, _⟩ := Rule.reduce?_eq_some kept
    obtain rfl := Node.rule.inj same
    have bears := (List.mem_filter.mp kept).2
    rw [Declaration.bearsColor, referencesUrl_content is opening closing] at bears
    contradiction

def addressTokens (inside : Text) : List Token := [⟨.delimiter, "."⟩, ⟨.ident "a", "a"⟩,
  ⟨.opening .curly, "\x7b"⟩, ⟨.ident "background", "background"⟩, ⟨.colon, ":"⟩,
  ⟨.url, "url(" ++ inside ++ ")"⟩, ⟨.semicolon, ";"⟩, ⟨.ident "color", "color"⟩, ⟨.colon, ":"⟩,
  ⟨.ident "red", "red"⟩, ⟨.closing .curly, "\x7d"⟩]

theorem slicedSheet_addressTokens (inside : Text) : SlicedSheet true (addressTokens inside)
    [.rule [⟨.delimiter, "."⟩, ⟨.ident "a", "a"⟩]
      [("background", [⟨.url, "url(" ++ inside ++ ")"⟩]), ("color", [⟨.ident "red", "red"⟩])]] := by
  have color : SlicedBlock [⟨.ident "color", "color"⟩, ⟨.colon, ":"⟩, ⟨.ident "red", "red"⟩]
      [("color", [⟨.ident "red", "red"⟩])] :=
    @SlicedBlock.declaration _ _ _ _ [] _ _ _ rfl rfl (List.forall_mem_nil _) rfl .nil
  refine .rule ⟨rfl, nofun⟩ rfl (by decide) rfl ?_ .nil
  exact @SlicedBlock.declaration _ _ _ _ [] _ _ _ rfl rfl (List.forall_mem_nil _) rfl color

/-- An address in which something looks like a whole comment. -/
theorem Sheet.reduce_address_closed :
    let css : Text := ".a\x7bbackground:url(b/*c*/.png);color:red\x7d"
    let address : List Token := [⟨.url, "url(b/*c*/.png)"⟩]
    let sheet : Sheet := [.rule ⟨".a", [⟨"background", "url(b.png)"⟩, ⟨"color", "red"⟩]⟩]
    Sheet.parse css = .ok sheet ∧ (∃ nodes, SlicedSheet true (scan css) nodes) ∧
      Address address "b/*c*/.png" ∧ insideComment false (source []) = false ∧
      insideComment false "b/*c*/.png" = false ∧
      (∃ r, .rule r ∈ sheet ∧ ⟨"background", content address⟩ ∈ r.declarations) ∧
      ∀ r, .rule r ∈ sheet.reduce → ⟨"background", content address⟩ ∉ r.declarations := by
  intro css address sheet
  have read : Sheet.parse css = .ok sheet := by decide +kernel
  have tokens : scan css = addressTokens "b/*c*/.png" := by decide +kernel
  have sliced := slicedSheet_addressTokens "b/*c*/.png"
  rw [← tokens] at sliced
  have is : Address address "b/*c*/.png" := .token rfl rfl
  have closed : insideComment false "b/*c*/.png" = false := by decide
  have declared : (("background" : Text), [] ++ address ++ []) ∈ [(("background" : Text), address),
      ("color", [⟨.ident "red", "red"⟩])] := List.mem_cons_self
  have absent := Sheet.reduce_address read sliced List.mem_cons_self declared is rfl closed
  exact ⟨read, ⟨_, sliced⟩, is, rfl, closed, absent⟩

/-- Where the closing bracket is cut out, the declaration stays. -/
theorem Sheet.reduce_address_open :
    let css : Text := ".a\x7bbackground:url(/*.png);color:red\x7d"
    let address : List Token := [⟨.url, "url(/*.png)"⟩]
    let sheet : Sheet := [.rule ⟨".a", [⟨"background", "url("⟩, ⟨"color", "red"⟩]⟩]
    Sheet.parse css = .ok sheet ∧ Address address "/*.png" ∧
      (∃ selector ds, SlicedSheet true (scan css) [.rule selector ds] ∧
        (("background" : Text), address) ∈ ds) ∧
      content address = "url(" ∧ sheet.reduce = sheet := by
  intro css address sheet
  have tokens : scan css = addressTokens "/*.png" := by decide +kernel
  have sliced := slicedSheet_addressTokens "/*.png"
  rw [← tokens] at sliced
  refine ⟨by decide +kernel, .token rfl rfl, ⟨_, _, sliced, List.mem_cons_self⟩, ?_, ?_⟩
  · decide
  · decide +kernel

end Css
end ColorTheme
