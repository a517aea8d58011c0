import ColorTheme.Proofs.Compact
import ColorTheme.Proofs.Css.Reduction
import ColorTheme.UserSheet
import Mathlib.Data.List.Nodup

/-!
Compiled fragments put together. A fragment is known by its digest, and where no two fragments share
one each different fragment stays once, in the place where it came first. What is joined is read as
the rules of all of them, so a fragment that is empty or comes again changes nothing of the others. -/
namespace ColorTheme

namespace Utf8

/-- The bits of the first byte are those that are left of the number. -/
theorem encodeChar_eq (c : Char) : encodeChar c = String.utf8EncodeChar c := by
  have bound : c.toNat < 0x110000 := by
    rcases c.valid with low | high
    · exact Nat.lt_trans low (by decide)
    · exact high.2
  have number : c.val.toNat = c.toNat := rfl
  simp only [encodeChar, String.utf8EncodeChar, number]
  generalize c.toNat = n at bound
  by_cases one : n < 0x80
  · have low : n ≤ 127 := by omega
    rw [if_pos one, if_pos low]
  · have above : ¬ n ≤ 127 := by omega
    rw [if_neg one, if_neg above]
    by_cases two : n < 0x800
    · have low : n ≤ 2047 := by omega
      have first : n / 64 % 32 = n / 64 := by omega
      rw [if_pos two, if_pos low, first]
      simp [Nat.add_comm, Nat.toUInt8]
    · have above : ¬ n ≤ 2047 := by omega
      rw [if_neg two, if_neg above]
      by_cases three : n < 0x10000
      · have low : n ≤ 65535 := by omega
        have first : n / 4096 % 16 = n / 4096 := by omega
        rw [if_pos three, if_pos low, first]
        simp [Nat.add_comm, Nat.toUInt8]
      · have above : ¬ n ≤ 65535 := by omega
        have first : n / 262144 % 8 = n / 262144 := by omega
        rw [if_neg three, if_neg above, first]
        simp [Nat.add_comm, Nat.toUInt8]

theorem encode_injective : Function.Injective encode := by
  intro text other same
  have chars : encodeChar = String.utf8EncodeChar := funext encodeChar_eq
  have bytes : text.utf8Encode = other.utf8Encode := by
    rw [encode, encode, chars] at same
    rw [List.utf8Encode, List.utf8Encode, same]
  rw [← String.toByteArray_ofList, ← String.toByteArray_ofList, String.toByteArray_inj] at bytes
  rw [← String.toList_ofList (l := text), bytes, String.toList_ofList]

end Utf8

namespace Minify

theorem blockComment_local : blockComment.Local where
  blind _ _ _ := rfl
  covers found := by
    obtain ⟨body, _, rfl⟩ := blockComment_eq_some.mp found
    exact ⟨'/', '*' :: (body ++ "*/"), by simp⟩

theorem stripBlockComments_commentless {css : Text} (clean : Commentless css) :
    stripBlockComments css = css := by
  refine Text.erase_idle blockComment_local fun here suffix => ?_
  have missed := comment_eq_none_iff.mpr (clean here suffix)
  cases known : blockComment none here with
  | none => rfl
  | some hit => simp [comment, known] at missed

end Minify

namespace Css

theorem Sheet.ofTokens_joinLines {parts : List (List Rule)}
    (plain : ∀ rules ∈ parts, ∀ r ∈ rules, r.Plain) (isFirst : Bool) :
    Sheet.ofTokens isFirst (Token.scan (Text.joinLines
      (parts.map fun rules => Sheet.render (rules.map .rule)))) =
        .ok (parts.flatten.map .rule) := by
  have nothing : ∀ isFirst, Sheet.ofTokens isFirst (Token.scan []) = .ok [] := fun isFirst => by
    rw [Token.scan_nil, Sheet.ofTokens]
  induction parts generalizing isFirst with
  | nil => exact nothing isFirst
  | cons rules parts ih =>
    obtain ⟨first, plain⟩ := List.forall_mem_cons.mp plain
    cases parts with
    | nil =>
      have read := Sheet.ofTokens_rules first isFirst []
      rw [List.append_nil, nothing] at read
      simpa [Text.joinLines, Except.map] using read
    | cons next parts =>
      have later : Text.joinLines ((rules :: next :: parts).map fun rules =>
          Sheet.render (rules.map .rule)) = Sheet.render (rules.map .rule) ++ '\n' ::
            Text.joinLines ((next :: parts).map fun rules => Sheet.render (rules.map .rule)) := by
        simp [Text.joinLines, List.intercalate_cons_cons]
      rw [later, Sheet.ofTokens_rules first, Sheet.ofTokens_newline, ih plain]
      simp [Except.map]

theorem Sheet.render_reduce_flatten (parts : List (List Rule)) :
    (Sheet.reduce (parts.flatten.map .rule)).render =
      (parts.map fun rules => (Sheet.reduce (rules.map .rule)).render).flatten := by
  induction parts with
  | nil => rfl
  | cons rules parts ih =>
    rw [List.flatten_cons, List.map_append, Sheet.reduce_append, Sheet.render_append, ih]
    rfl

end Css

namespace UserSheet

open Css

section Distinct

variable {hash : Hash}

/-- With digests of their own the fragments stay that were not seen, each in the first place
where it stands. -/
theorem distinct_eq {seen fragments : List Text}
    (apart : ∀ f ∈ fragments, ∀ g ∈ seen ++ fragments,
      fragmentDigest hash f = fragmentDigest hash g → f = g) :
    distinct hash (seen.map (fragmentDigest hash)) fragments =
      (fragments.filter fun f => f ∉ seen).eraseDups := by
  induction fragments generalizing seen with
  | nil => rfl
  | cons f rest ih =>
    obtain ⟨own, apart⟩ := List.forall_mem_cons.mp apart
    have met : (seen.map (fragmentDigest hash)).contains (fragmentDigest hash f) = true ↔
        f ∈ seen := by
      rw [List.contains_iff_mem, List.mem_map]
      constructor
      · rintro ⟨g, earlier, same⟩
        rwa [own g (List.mem_append_left _ earlier) same.symm]
      · exact fun earlier => ⟨f, earlier, rfl⟩
    by_cases known : f ∈ seen
    · have later := ih fun g member other among => apart g member other (by
        simp only [List.mem_append, List.mem_cons] at among ⊢
        tauto)
      rw [distinct, if_pos (met.mpr known), later, List.filter_cons_of_neg (by simpa using known)]
    · have later := @ih (f :: seen) fun g member other among => apart g member other (by
        simp only [List.mem_append, List.mem_cons] at among ⊢
        tauto)
      have shorter : (rest.filter fun g => g ∉ f :: seen) =
          (rest.filter fun g => g ∉ seen).filter fun g => !g == f := by
        rw [List.filter_filter]
        refine List.filter_congr fun g _ => ?_
        rw [Bool.eq_iff_iff]
        simp
      rw [List.map_cons, shorter] at later
      rw [distinct, if_neg (mt met.mp known), later, List.filter_cons_of_pos (by simpa using known),
        List.eraseDups_cons]

end Distinct

/-- A text is nothing, or what plain rules are written as. -/
def IsPlain (fragment : Text) : Prop :=
  fragment = [] ∨ ∃ rules : List Rule, (∀ r ∈ rules, r.Plain) ∧
    fragment = Sheet.render (rules.map .rule)

theorem IsPlain.rules {fragments : List Text} (plain : ∀ f ∈ fragments, IsPlain f) :
    ∃ parts : List (List Rule), (∀ rules ∈ parts, ∀ r ∈ rules, r.Plain) ∧
      fragments = parts.map fun rules => Sheet.render (rules.map .rule) := by
  induction fragments with
  | nil => exact ⟨[], nofun, rfl⟩
  | cons f fragments ih =>
    obtain ⟨first, plain⟩ := List.forall_mem_cons.mp plain
    obtain ⟨parts, known, rfl⟩ := ih plain
    rcases first with rfl | ⟨rules, own, rfl⟩
    · exact ⟨[] :: parts, List.forall_mem_cons.mpr ⟨nofun, known⟩, rfl⟩
    · exact ⟨rules :: parts, List.forall_mem_cons.mpr ⟨own, known⟩, rfl⟩

/-- Joined fragments are reduced to what each different one of them is reduced to, in the order in
which they come first; those that are empty or come again cost nothing. -/
theorem reduceToColors_joinFragments {hash : Hash} {fragments : List Text}
    (apart : ∀ f ∈ fragments, ∀ g ∈ fragments,
      hash (Utf8.encode f) = hash (Utf8.encode g) → Utf8.encode f = Utf8.encode g)
    (plain : ∀ f ∈ fragments, IsPlain f) :
    ∃ reduced : List Text, fragments.eraseDups.map reduceToColors = reduced.map .ok ∧
      reduceToColors (joinFragments hash fragments) = .ok reduced.flatten := by
  have kept : fragments.map Minify.stripBlockComments = fragments := by
    refine (List.map_congr_left fun f member => ?_).trans (List.map_id fragments)
    rcases plain f member with rfl | ⟨rules, own, rfl⟩
    · rfl
    · exact Minify.stripBlockComments_commentless (Minify.commentless_render own)
  have once : distinct hash [] fragments = fragments.eraseDups := by
    have all := @distinct_eq hash [] fragments
      fun f member g other same => Utf8.encode_injective (apart f member g other same)
    simpa using all
  have still : ∀ f ∈ fragments.eraseDups, IsPlain f := fun f member =>
    plain f (List.mem_eraseDups.mp member)
  obtain ⟨parts, own, spelled⟩ := IsPlain.rules still
  refine ⟨parts.map fun rules => (Sheet.reduce (rules.map .rule)).render, ?_, ?_⟩
  · rw [spelled, List.map_map, List.map_map]
    refine List.map_congr_left fun rules member => ?_
    have single : ∀ part ∈ [rules], ∀ r ∈ part, r.Plain :=
      List.forall_mem_singleton.mpr (own rules member)
    have read := Sheet.ofTokens_joinLines single true
    exact reduceToColors_eq_ok.mpr ⟨_, by simpa [Text.joinLines] using read, rfl⟩
  · have read := Sheet.ofTokens_joinLines own true
    rw [joinFragments, kept, once, spelled]
    exact reduceToColors_eq_ok.mpr ⟨_, read, (Sheet.render_reduce_flatten parts).symm⟩

/-- Two sheets that failed, one that came twice and one that holds nothing about colors. -/
def sampleFragments : List Text :=
  let button : Rule := ⟨".btn:hover", [⟨"color", "#fff"⟩, ⟨"margin", "0 (1px)"⟩]⟩
  let link : Rule := ⟨".a > .b, .c", [⟨"border-color", "rgb(0, 0, 0) !important"⟩]⟩
  [[], Sheet.render [.rule button], Sheet.render [.rule link, .rule ⟨".d", []⟩],
    Sheet.render [.rule button], [], Sheet.render [.rule ⟨".e", [⟨"margin", "0"⟩]⟩]]

theorem reduceToColors_joinFragments_sample :
    (∀ f ∈ sampleFragments, ∀ g ∈ sampleFragments,
      Digest.sha256 (Utf8.encode f) = Digest.sha256 (Utf8.encode g) →
        Utf8.encode f = Utf8.encode g) ∧
    (∀ f ∈ sampleFragments, IsPlain f) ∧
    ∃ reduced : List Text, sampleFragments.eraseDups.map reduceToColors = reduced.map .ok ∧
      reduceToColors (joinFragments Digest.sha256 sampleFragments) = .ok reduced.flatten ∧
      reduced.flatten = ".btn:hover \x7b\n  color: #fff;\n\x7d\n" ++
        ".a > .b, .c \x7b\n  border-color: rgb(0, 0, 0) !important;\n\x7d\n" := by
  have digests : (sampleFragments.eraseDups.map fun f => Digest.sha256 (Utf8.encode f)).Nodup := by
    decide +kernel
  have apart : ∀ f ∈ sampleFragments, ∀ g ∈ sampleFragments,
      Digest.sha256 (Utf8.encode f) = Digest.sha256 (Utf8.encode g) →
        Utf8.encode f = Utf8.encode g := by
    intro f first g second same
    rw [List.inj_on_of_nodup_map digests (List.mem_eraseDups.mpr first)
      (List.mem_eraseDups.mpr second) same]
  have plain : ∀ f ∈ sampleFragments, IsPlain f := by
    have rules : ∀ rules : List Rule, (∀ r ∈ rules, r.Plain) →
        IsPlain (Sheet.render (rules.map .rule)) := fun rules own => .inr ⟨rules, own, rfl⟩
    simp only [sampleFragments, List.forall_mem_cons]
    refine ⟨.inl rfl, rules [_] (by decide +kernel), rules [_, _] (by decide +kernel),
      rules [_] (by decide +kernel), .inl rfl, rules [_] (by decide +kernel), nofun⟩
  obtain ⟨reduced, each, joined⟩ := reduceToColors_joinFragments apart plain
  have known : reduceToColors (joinFragments Digest.sha256 sampleFragments) =
      .ok (".btn:hover \x7b\n  color: #fff;\n\x7d\n" ++
        ".a > .b, .c \x7b\n  border-color: rgb(0, 0, 0) !important;\n\x7d\n") := by
    decide +kernel
  exact ⟨apart, plain, reduced, each, joined, Except.ok.inj (joined.symm.trans known)⟩

end UserSheet
end ColorTheme
