import StylePrune.Files.Source
import StylePrune.Proofs.Retention

/-!
# Names that stand in the content as they are written

Names and content are lower-cased apart from each other. Of all characters only the capital sigma
has a lower-case form that depends on its neighbours, so a name that occurs in the content may fail
to occur in lower case for one reason only: one of its sigmas ends a word in the name and none in
the content, or the other way round.

* **`Text.lowerFrom_append`** — how a piece of a text is lower-cased between its neighbours.
* **`Corpus.mentioned_verbatim_iff`** — a name is found where its sigmas have the forms that they
  have in the name alone, and it is found in every content that holds it exactly when its sigmas
  have these forms everywhere (`Text.Settled`).
-/

namespace StylePrune

namespace Text

/-! ## Sigmas and their neighbours -/

/-- The first character that is not case-ignorable. -/
def firstSolid? (s : Text) : Option Char := s.find? fun c => !isCaseIgnorable c

/-- A sigma between the two texts ends a word. -/
def EndsWord (before behind : Text) : Prop :=
  beginsCased before.reverse = true ∧ beginsCased behind = false

/-- Each capital sigma of the text ends a word between its neighbours exactly when it ends one in the
text alone. -/
def SigmasKept (before s behind : Text) : Prop :=
  ∀ u v, s = u ++ 'Σ' :: v → (EndsWord (before ++ u) (v ++ behind) ↔ EndsWord u v)

/-- For each capital sigma of the text, the text itself tells whether it ends a word: a character
before it that has no case, one behind it that has, or characters on both sides decide, those that
are case-ignorable left out. -/
def Settled (s : Text) : Prop :=
  ∀ u v, s = u ++ 'Σ' :: v →
    (∃ c ∈ firstSolid? u.reverse, isCased c = false) ∨ (∃ c ∈ firstSolid? v, isCased c = true) ∨
      ((firstSolid? u.reverse).isSome ∧ (firstSolid? v).isSome)

theorem beginsCased_eq (s : Text) : beginsCased s = (firstSolid? s).any isCased := by
  induction s with
  | nil => rfl
  | cons c s ih =>
    cases hc : isCaseIgnorable c with
    | true => simpa [beginsCased, firstSolid?, hc] using ih
    | false => simp [beginsCased, firstSolid?, hc]

theorem firstSolid?_append (a b : Text) :
    firstSolid? (a ++ b) = (firstSolid? a).or (firstSolid? b) := List.find?_append

/-- The first solid character of a text decides, whatever stands behind the text. -/
theorem beginsCased_append {a : Text} (h : (firstSolid? a).isSome) (b : Text) :
    beginsCased (a ++ b) = beginsCased a := by
  rw [beginsCased_eq, beginsCased_eq, firstSolid?_append, Option.or_of_isSome h]

theorem beginsCased_append_of_none {a : Text} (h : firstSolid? a = none) (b : Text) :
    beginsCased (a ++ b) = beginsCased b := by
  rw [beginsCased_eq, beginsCased_eq, firstSolid?_append, h, Option.none_or]

/-- Sigmas that the text settles keep their forms between any neighbours. -/
theorem Settled.sigmasKept {s : Text} (h : Settled s) (before behind : Text) :
    SigmasKept before s behind := by
  intro u v hs
  unfold EndsWord
  rw [List.reverse_append]
  rcases h u v hs with ⟨c, hc, hcased⟩ | ⟨c, hc, hcased⟩ | ⟨hu, hv⟩
  · have hu : beginsCased u.reverse = false := by
      rw [beginsCased_eq, hc, Option.any_some, hcased]
    rw [beginsCased_append (Option.isSome_of_mem hc), hu]
    simp
  · have hv : beginsCased v = true := by rw [beginsCased_eq, hc, Option.any_some, hcased]
    rw [beginsCased_append (Option.isSome_of_mem hc), hv]
    simp
  · rw [beginsCased_append hu, beginsCased_append hv]

/-! ## Lower case, piece by piece -/

/-- Whether the nearest solid character before the end is a cased letter, given whether it is before
the start. -/
def casedAfter (cased : Bool) (s : Text) : Bool :=
  s.foldl (fun cased c => if isCaseIgnorable c then cased else isCased c) cased

/-- Lower-casing a text between its neighbours: `cased` tells of the text before it, `behind` is the
text behind it. -/
def lowerWithin (behind : Text) (cased : Bool) : Text → Text
  | [] => []
  | c :: rest =>
    (if c.toNat == 0x3A3 then
      [Char.ofNat (if cased && !beginsCased (rest ++ behind) then 0x3C2 else 0x3C3)]
    else lowerChar c) ++
    lowerWithin behind (if isCaseIgnorable c then cased else isCased c) rest

/-- Two texts in a row are lower-cased one behind the other, the first one before the second one as
its neighbour. -/
theorem lowerFrom_append (cased : Bool) (s behind : Text) :
    lowerFrom cased (s ++ behind) =
      lowerWithin behind cased s ++ lowerFrom (casedAfter cased s) behind := by
  induction s generalizing cased with
  | nil => rfl
  | cons c s ih =>
    rw [List.cons_append, lowerFrom, ih, lowerWithin, List.append_assoc]
    rfl

theorem lowerFrom_eq (cased : Bool) (s : Text) : lowerFrom cased s = lowerWithin [] cased s := by
  simpa [lowerFrom] using lowerFrom_append cased s []

theorem casedAfter_eq (cased : Bool) (s : Text) :
    casedAfter cased s = ((firstSolid? s.reverse).map isCased).getD cased := by
  induction s generalizing cased with
  | nil => rfl
  | cons c s ih =>
    rw [casedAfter, List.foldl_cons, ← casedAfter, ih, List.reverse_cons, firstSolid?_append]
    cases firstSolid? s.reverse with
    | some d => rfl
    | none => cases hc : isCaseIgnorable c <;> simp [firstSolid?, hc]

/-- Lower-casing starts as behind no letter. -/
theorem casedAfter_false (s : Text) : casedAfter false s = beginsCased s.reverse := by
  rw [casedAfter_eq, beginsCased_eq]
  cases firstSolid? s.reverse <;> rfl

theorem casedAfter_append (cased : Bool) (a b : Text) :
    casedAfter cased (a ++ b) = casedAfter (casedAfter cased a) b := List.foldl_append

/-- A text is lower-cased alike in two places when each of its sigmas ends a word in both or in
neither. -/
theorem lowerWithin_congr {cased cased' : Bool} {s behind behind' : Text}
    (h : ∀ u v, s = u ++ 'Σ' :: v →
      (casedAfter cased u && !beginsCased (v ++ behind)) =
        (casedAfter cased' u && !beginsCased (v ++ behind'))) :
    lowerWithin behind cased s = lowerWithin behind' cased' s := by
  induction s generalizing cased cased' with
  | nil => rfl
  | cons c s ih =>
    rw [lowerWithin, lowerWithin, ih fun u v hs => h (c :: u) v (by rw [hs]; rfl)]
    by_cases hc : c.toNat = 0x3A3
    · obtain rfl : c = 'Σ' := Char.toNat_inj.1 hc
      have hsigma := h [] s rfl
      simp only [casedAfter, List.foldl_nil] at hsigma
      rw [hsigma]
    · simp [hc]

/-- A text without sigmas is lower-cased alike everywhere. -/
theorem lowerWithin_of_not_mem {s : Text} (h : 'Σ' ∉ s) (cased cased' : Bool)
    (behind behind' : Text) : lowerWithin behind cased s = lowerWithin behind' cased' s :=
  lowerWithin_congr fun u v hs => absurd (by rw [hs]; simp) h

theorem isCaseIgnorable_sigma : isCaseIgnorable 'Σ' = false := by decide +kernel

theorem isCased_sigma : isCased 'Σ' = true := by decide +kernel

/-- What stands behind a sigma does not matter before it. -/
theorem lowerWithin_sigma (cased : Bool) (s behind behind' : Text) :
    lowerWithin ('Σ' :: behind) cased s = lowerWithin ('Σ' :: behind') cased s := by
  refine lowerWithin_congr fun u v _ => ?_
  have hsigma : ∀ w, firstSolid? ('Σ' :: w) = some 'Σ' := fun w => by
    simp [firstSolid?, isCaseIgnorable_sigma]
  simp only [beginsCased_eq, firstSolid?_append, hsigma]

theorem not_mem_sigma_of_none {s : Text} (h : firstSolid? s = none) : 'Σ' ∉ s := fun hmem => by
  have hnone := List.find?_eq_none.1 h 'Σ' hmem
  simp [isCaseIgnorable_sigma] at hnone

theorem lowerFrom_sigma (cased : Bool) (s : Text) :
    lowerFrom cased ('Σ' :: s) =
      (if cased && !beginsCased s then 'ς' else 'σ') :: lowerFrom true s := by
  rw [lowerFrom, isCaseIgnorable_sigma, isCased_sigma]
  cases cased && !beginsCased s <;> rfl

/-! ## Occurrences -/

/-- A name occurs in lower case where its sigmas keep their forms. -/
theorem infix_lower_of_sigmasKept {before name behind : Text}
    (h : SigmasKept before name behind) :
    name.lower <:+: (before ++ name ++ behind).lower := by
  have hname : lowerWithin behind (casedAfter false before) name = name.lower := by
    rw [lower, lowerFrom_eq]
    refine lowerWithin_congr fun u v hs => ?_
    have hsigma := h u v hs
    rw [EndsWord, EndsWord, ← casedAfter_false, ← casedAfter_false, casedAfter_append] at hsigma
    rw [Bool.eq_iff_iff, List.append_nil]
    simpa using hsigma
  have hcontent : (before ++ name ++ behind).lower =
      lowerWithin (name ++ behind) false before ++
        (name.lower ++ lowerFrom (casedAfter (casedAfter false before) name) behind) := by
    rw [lower, List.append_assoc, lowerFrom_append, lowerFrom_append, hname]
  exact ⟨_, _, by rw [hcontent, List.append_assoc]⟩

theorem not_infix_of_count_lt {s t : Text} {c : Char} (h : t.count c < s.count c) : ¬ s <:+: t :=
  fun hin => Nat.not_le_of_lt h (hin.sublist.count_le c)

/-- A sigma that ends a word in the text, for want of a letter behind it, ends none before a letter:
then the lower-case form of the text is lost. -/
theorem not_infix_of_letter_behind {u v : Text} (hu : beginsCased u.reverse = true)
    (hv : firstSolid? v = none) :
    ¬ lower (u ++ 'Σ' :: v) <:+: lower (u ++ 'Σ' :: v ++ ['A']) := by
  have hname : lower (u ++ 'Σ' :: v) =
      lowerWithin ('Σ' :: v) false u ++ 'ς' :: lowerWithin [] true v := by
    rw [lower, lowerFrom_append, casedAfter_false, hu, lowerFrom_sigma, ← lowerFrom_eq]
    simp [beginsCased_eq, hv]
  have hletter : beginsCased ['A'] = true := by decide +kernel
  have hcontent : lower (u ++ 'Σ' :: v ++ ['A']) =
      lowerWithin ('Σ' :: v) false u ++ 'σ' :: (lowerWithin [] true v ++ ['a']) := by
    rw [lower, List.append_assoc, List.cons_append, lowerFrom_append, casedAfter_false, hu,
      lowerFrom_sigma, beginsCased_append_of_none hv, hletter, lowerFrom_append true v,
      lowerWithin_sigma false u _ v,
      lowerWithin_of_not_mem (not_mem_sigma_of_none hv) true true ['A'] []]
    rfl
  -- the final sigma is gone, and no other one has come
  refine not_infix_of_count_lt (c := 'ς') ?_
  rw [hname, hcontent]
  simp

/-- A sigma that ends no word in the text, for want of a letter before it, ends one behind a letter:
then the lower-case form of the text is lost. -/
theorem not_infix_of_letter_before {u v : Text} (hu : firstSolid? u.reverse = none)
    (hv : beginsCased v = false) :
    ¬ lower (u ++ 'Σ' :: v) <:+: lower ('A' :: (u ++ 'Σ' :: v)) := by
  have hmem : 'Σ' ∉ u := fun h => not_mem_sigma_of_none hu (List.mem_reverse.2 h)
  have hname : lower (u ++ 'Σ' :: v) =
      lowerWithin ('Σ' :: v) false u ++ 'σ' :: lowerFrom true v := by
    rw [lower, lowerFrom_append, lowerFrom_sigma, casedAfter_eq, hu]
    rfl
  have hcontent : lower ('A' :: (u ++ 'Σ' :: v)) =
      'a' :: (lowerWithin ('Σ' :: v) false u ++ 'ς' :: lowerFrom true v) := by
    have hfirst : lower ('A' :: (u ++ 'Σ' :: v)) = 'a' :: lowerFrom true (u ++ 'Σ' :: v) := by
      have hletter : isCaseIgnorable 'A' = false ∧ isCased 'A' = true := by decide +kernel
      rw [lower, lowerFrom, hletter.1, hletter.2]
      rfl
    rw [hfirst, lowerFrom_append, lowerFrom_sigma, casedAfter_eq, hu, hv,
      lowerWithin_of_not_mem hmem true false _ ('Σ' :: v)]
    rfl
  -- the sigma has become final, and no other one has come
  refine not_infix_of_count_lt (c := 'σ') ?_
  rw [hname, hcontent]
  simp

/-- A text whose lower-case form occurs in that of every text that holds it settles its sigmas. -/
theorem settled_of_infix_lower {s : Text} (h : ∀ t : Text, s <:+: t → s.lower <:+: t.lower) :
    Settled s := by
  rintro u v rfl
  by_contra hnot
  simp only [not_or, not_exists, not_and, Bool.not_eq_true, Bool.not_eq_false] at hnot
  obtain ⟨hu, hv, hboth⟩ := hnot
  -- a letter put where the text leaves the form of its sigma open changes that form
  have hbehind : beginsCased v = false := by
    rw [beginsCased_eq]
    cases hfirst : firstSolid? v with
    | none => rfl
    | some c => exact hv c hfirst
  cases hbefore : firstSolid? u.reverse with
  | none =>
    exact not_infix_of_letter_before hbefore hbehind (h _ (List.suffix_cons 'A' _).isInfix)
  | some c =>
    have hcased : beginsCased u.reverse = true := by
      rw [beginsCased_eq, hbefore]
      exact hu c hbefore
    have hnone : firstSolid? v = none := by
      rw [hbefore] at hboth
      simpa using hboth rfl
    exact not_infix_of_letter_behind hcased hnone (h _ (List.prefix_append _ ['A']).isInfix)

end Text

/-! ## Names in the content -/

namespace Corpus

/-- A name without escapes is found, and a part of that name may match, where the name stands in the
content and its sigmas have the forms they have in the name alone. The name is found in every content
that holds it exactly when it settles the forms of its sigmas. -/
theorem mentioned_verbatim_iff {name : Text} (hne : name ≠ []) (hback : '\\' ∉ name) :
    (∀ before behind, Text.SigmasKept before name behind →
        let content := before ++ name ++ behind
        (∀ names, name ∈ names → name ∈ (ofContent content).mentioned names) ∧
          ∀ (t : FileTree) (read : Text), Source.contentText t (.text content) = .ok read →
            ∀ (s : Stylesheet), ∀ p ∈ s.parts, p.value = name →
              (Usage.ofContent s read).allows p = true) ∧
      ((∀ content, name <:+: content → ∀ names, name ∈ names →
          name ∈ (ofContent content).mentioned names) ↔ Text.Settled name) := by
  have hmentioned : ∀ {content names}, name ∈ names →
      (name ∈ (ofContent content).mentioned names ↔ name.lower <:+: content.lower) := by
    intro content names hnames
    simp [mentioned, Text.mem_firstSeen, hnames, mentions_ofContent_iff, hne]
  refine ⟨fun before behind hkept => ⟨fun names hnames => ?_, ?_⟩, ⟨fun h => ?_, ?_⟩⟩
  · exact (hmentioned hnames).2 (Text.infix_lower_of_sigmasKept hkept)
  · -- content given as text is lower-cased twice on its way
    rintro t read hread s p hp rfl
    cases hread
    rw [Usage.allows_ofContent hp, allows_ofContent_iff]
    intro needle hneedle
    have hlower : needle = p.value.lower := by
      unfold Part.needle? at hneedle
      rw [Identifier.decode_eq_self hback] at hneedle
      split at hneedle <;> cases hneedle <;> rfl
    rw [hlower, Text.lower_lower]
    exact ⟨by simpa using hne, Text.infix_lower_of_sigmasKept hkept⟩
  · refine Text.settled_of_infix_lower fun content hcontent => ?_
    exact (hmentioned (List.mem_singleton_self name)).1 (h content hcontent [name] (by simp))
  · rintro hsettled content ⟨before, behind, rfl⟩ names hnames
    exact (hmentioned hnames).2 (Text.infix_lower_of_sigmasKept (hsettled.sigmasKept before behind))

/-- Behind a sigma before a letter the content may go on as it likes. -/
theorem mentioned_verbatim_iff_inner :
    let name : Text := ['Σ', 'Α']
    name ≠ [] ∧ '\\' ∉ name ∧ Text.Settled name ∧
      ∀ content, name <:+: content → name ∈ (ofContent content).mentioned [name] := by
  intro name
  have hne : name ≠ [] := by decide
  have hback : '\\' ∉ name := by decide
  have hsettled : Text.Settled name := by
    intro u v hname
    refine .inr (.inl ?_)
    have hv : v = ['Α'] := by
      cases u with
      | nil => exact (List.cons.inj hname).2.symm
      | cons c u =>
        have hbehind : ['Α'] = u ++ 'Σ' :: v := (List.cons.inj hname).2
        have hmem : 'Σ' ∈ ['Α'] := by simp [hbehind]
        simp at hmem
    rw [hv]
    exact ⟨'Α', by decide +kernel, by decide +kernel⟩
  refine ⟨hne, hback, hsettled, fun content hcontent => ?_⟩
  exact (mentioned_verbatim_iff hne hback).2.2 hsettled content hcontent [name] (by simp)

/-- A sigma alone is lower-cased as one in a word, and one that ends a word in the content differs
from it: a rule for a class is lost, although the content holds the name of the class. -/
theorem not_mentioned_verbatim :
    let name := "Σ".toList
    let content := "ΑΣ".toList
    let selector : Selector := ⟨[⟨.className, name, '.' :: name⟩], [], []⟩
    let s : Stylesheet := .rule [] [selector] ['{', '}'] (.done [])
    name <:+: content ∧ name ∉ (ofContent content).mentioned [name] ∧
      Stylesheet.parse ".Σ{}".toList = .ok s ∧
      s.rejected (Usage.ofContent s (Text.lower content)).keeps = [selector] := by
  intro name content selector s
  have hread : Statement.readAll ".Σ{}".toList = .ok ([.rule [] ".Σ".toList []], []) := by
    decide +kernel
  have hparse : Stylesheet.parse ".Σ{}".toList = .ok s := by
    refine Stylesheet.parse_of_statements hread (o := s.mapHeads Selector.joined) ?_
      (by decide +kernel)
    simp only [Outline.ofStatements]
    rfl
  exact ⟨⟨['Α'], [], rfl⟩, by decide +kernel, hparse, by decide +kernel⟩

end Corpus

end StylePrune
