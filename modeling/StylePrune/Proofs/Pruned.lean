import StylePrune.Proofs.Formed
import StylePrune.Proofs.Pieces

/-!
# Pruned sheets stay formed

A stylesheet that was read is formed, with heads whose selectors are read again from their own
texts. Pruning it leaves such a stylesheet. Its groups stay free of interrupting markers as long as
no head that stays begins with a marker where it did not before (`GroupsApart.prune`); in
particular where every head that stays begins with the selector it began with.
-/

namespace StylePrune

open Mode

namespace Selector

/-- Several selectors are written as the first one, with a comma behind it if there are more. -/
theorem joined_cons (first : Selector) (others : List Selector) :
    joined (first :: others) = first.raw ∨
      ∃ r, joined (first :: others) = first.raw ++ ',' :: r := by
  cases others with
  | nil => exact .inl (by simp [joined, List.intercalate])
  | cons s others => exact .inr ⟨joined (s :: others), by simp [joined, List.intercalate]⟩

/-- A selector that is read from its own text has some. -/
theorem raw_ne_nil {s : Selector} (h : Selector.parse s.raw = .ok s) : s.raw ≠ [] := by
  intro hnil
  have hempty : Selector.parse [] = .error (.empty []) := by
    simp [Selector.parse, takeLead, Combinator.read, takeSpacing, takeSymbol, parseParts]
  rw [hnil, hempty] at h
  cases h

end Selector

/-- How a rule may begin is decided before the first comma. -/
theorem ruleStart_append_iff {s : Text} (hs : s ≠ []) (r : Text) :
    RuleStart (s ++ ',' :: r) ↔ RuleStart s := by
  obtain ⟨c, v, rfl⟩ := List.exists_cons_of_ne_nil hs
  have hcomma : ∀ l : Text, ',' ∉ l → (l <+: c :: v ++ ',' :: r ↔ l <+: c :: v) :=
    fun l hl => prefix_append_iff hl (c :: v) r
  constructor
  · rintro ⟨⟨d, w, heq, hblank, hat⟩, hcomment, hmarker⟩
    cases heq
    exact ⟨⟨c, v, rfl, hblank, hat⟩, fun h => hcomment ((hcomma _ (by decide)).2 h),
      fun h => hmarker ((markerFirst_append_iff (by decide) (c :: v) r).2 h)⟩
  · rintro ⟨⟨d, w, heq, hblank, hat⟩, hcomment, hmarker⟩
    cases heq
    exact ⟨⟨c, v ++ ',' :: r, rfl, hblank, hat⟩, fun h => hcomment ((hcomma _ (by decide)).1 h),
      fun h => hmarker ((markerFirst_append_iff (by decide) (c :: v) r).1 h)⟩

namespace Sheet

/-- A sheet without the closing brace before it is under fewer conditions. -/
theorem Apart.weaken {closed : Bool} {o : Outline} (ho : o.firstUnknown? = none)
    (h : Apart true o) : Apart closed o := by
  obtain ⟨hmark, hapart⟩ := (apart_iff ho).1 h
  exact (apart_iff ho).2 ⟨fun _ => hmark rfl, hapart⟩

theorem firstUnknown?_mapHeads {σ τ : Type} (f : σ → τ) (s : Sheet σ) :
    (s.mapHeads f).firstUnknown? = s.firstUnknown? := by
  induction s with
  | done => rfl
  | rule _ _ _ _ ih => exact ih
  | atRule _ _ _ _ _ ih => exact ih
  | group _ _ _ _ _ _ ihb ih => simp only [mapHeads, firstUnknown?, ihb, ih]
  | comment _ _ _ ih => exact ih
  | unknown => rfl

section

variable {p : List Selector → Prop} {keeps : Selector → Bool} {s : Stylesheet}
  {f g : List Selector → Text}

theorem firstUnknown?_prune (hs : Formed p s) :
    ((Stylesheet.prune keeps s).mapHeads g).firstUnknown? = none := by
  rw [firstUnknown?_mapHeads]
  have hformed : Formed (fun _ => True) (Stylesheet.prune keeps s) :=
    hs.prune fun _ _ _ _ => trivial
  exact hformed.firstUnknown?

/-- Pruning brings no marker right behind a closing brace when it brings none to the start of a
head. Where a node goes, the one behind it stood behind a closing brace already. -/
theorem Apart.prune (hs : Formed p s)
    (hstart : ∀ head ∈ s.heads, head.filter keeps ≠ [] → ∀ leading,
      MarkerAhead (leading ++ g (head.filter keeps)) → MarkerAhead (leading ++ f head))
    {closed : Bool} (h : Apart closed (s.mapHeads f)) :
    Apart closed ((Stylesheet.prune keeps s).mapHeads g) := by
  induction hs generalizing closed with
  | done => exact h
  | @rule leading body head next hlead hhead hbody hnext ih =>
    obtain ⟨hfirst, hrest⟩ := List.forall_mem_cons.1 hstart
    have hnext' := ih hrest h.2
    rw [Stylesheet.prune]
    split
    · exact hnext'.weaken (firstUnknown?_prune hnext)
    · -- what the head begins with now begins a marker only if it did before
      rename_i hne
      refine ⟨fun hc hahead => h.start hc ?_, hnext'⟩
      simp only [mapHeads, text, id, Statement.braced, List.append_assoc, List.cons_append]
        at hahead ⊢
      rw [← List.append_assoc, markerAhead_append_iff rfl] at hahead ⊢
      exact hfirst hne leading hahead
  | @atRule leading keyword prelude body next hlead hkeyword hprelude hbody hunread hnext ih =>
    refine ⟨fun hc hahead => h.start hc ?_, ih hstart h.2⟩
    -- the `@` of the keyword is no part of a marker, so what stands behind it does not count
    obtain ⟨k, rfl, -⟩ := hkeyword
    simp only [Stylesheet.prune, mapHeads, text, List.append_assoc, List.cons_append] at hahead ⊢
    rwa [markerAhead_append_iff_of rfl (by decide)] at hahead ⊢
  | @group leading keyword prelude body next hlead hkeyword hprelude hconditional hbody hnext ihb
      ih =>
    obtain ⟨hin, hbehind⟩ := List.forall_mem_append.1 hstart
    have hnext' := ih hbehind h.2.2
    rw [Stylesheet.prune]
    split
    · refine ⟨fun hc hahead => h.start hc ?_, ihb hin h.2.1, hnext'⟩
      obtain ⟨k, rfl, -⟩ := hkeyword
      simp only [mapHeads, text, List.append_assoc, List.cons_append] at hahead ⊢
      rwa [markerAhead_append_iff_of rfl (by decide)] at hahead ⊢
    · exact hnext'.weaken (firstUnknown?_prune hnext)
  | @comment leading body next hlead hbody hnext ih =>
    refine ⟨fun hc hahead => h.start hc ?_, ih hstart h.2⟩
    simp only [Stylesheet.prune, mapHeads, text, List.append_assoc, List.cons_append] at hahead ⊢
    rwa [markerAhead_append_iff_of rfl (by decide)] at hahead ⊢

theorem GroupsApart.prune (hs : Formed p s)
    (hstart : ∀ head ∈ s.heads, head.filter keeps ≠ [] → ∀ leading,
      MarkerAhead (leading ++ g (head.filter keeps)) → MarkerAhead (leading ++ f head))
    (h : (s.mapHeads f).GroupsApart) : ((Stylesheet.prune keeps s).mapHeads g).GroupsApart := by
  induction hs with
  | done => exact h
  | rule _ _ _ _ ih =>
    obtain ⟨hfirst, hrest⟩ := List.forall_mem_cons.1 hstart
    rw [Stylesheet.prune]
    split
    · exact ih hrest h
    · exact ih hrest h
  | atRule _ _ _ _ _ _ _ ih => exact ih hstart h
  | group _ _ _ _ hbody _ _ ih =>
    obtain ⟨hin, hbehind⟩ := List.forall_mem_append.1 hstart
    rw [Stylesheet.prune]
    split
    · exact ⟨h.1.prune hbody hin, ih hbehind h.2⟩
    · exact ih hbehind h.2
  | comment _ _ _ ih => exact ih hstart h

end

end Sheet

namespace Stylesheet

/-- A head as it is read: selectors that are read again from their own texts, of which the first can
begin a rule. -/
structure HeadRead (head : List Selector) : Prop where
  ne_nil : head ≠ []
  sound : ∀ s ∈ head, s.Sound
  start : RuleStart (Selector.joined head)
  flat : ∀ first ∈ head.head?, Flat .fresh first.raw

theorem HeadRead.flat_joined {head : List Selector} (h : HeadRead head) :
    Flat .fresh (Selector.joined head) := by
  obtain ⟨first, others, rfl⟩ := List.exists_cons_of_ne_nil h.ne_nil
  exact Selector.flat_joined (h.flat first rfl) fun s hs => (h.sound s (by simp [hs])).flat

/-- The outline of a stylesheet that was read has the texts of its selectors for heads. -/
theorem mapHeads_of_rel {o : Outline} {s : Stylesheet}
    (h : Sheet.Rel (fun a b => Selector.parseList a = .ok b) o s) :
    s.mapHeads Selector.joined = o := by
  induction h with
  | done => rfl
  | rule _ _ hhead _ ih => rw [Sheet.mapHeads, ih, Selector.parseList_joined hhead]
  | atRule _ _ _ _ _ ih => rw [Sheet.mapHeads, ih]
  | group _ _ _ _ _ _ ihb ih => rw [Sheet.mapHeads, ihb, ih]
  | comment _ _ _ ih => rw [Sheet.mapHeads, ih]
  | unknown _ _ ih => rw [Sheet.mapHeads, ih]

/-- A stylesheet that was read is formed, and none of its groups is interrupted. -/
theorem formed_of_parse {source : Text} {s : Stylesheet} (h : parse source = .ok s) :
    s.Formed HeadRead ∧ (s.mapHeads Selector.joined).GroupsApart := by
  obtain ⟨o, ho, hrel⟩ := parse_eq_ok_iff.1 h
  obtain ⟨hformed, hapart⟩ := Outline.formed_of_parse ho
  refine ⟨?_, by rwa [mapHeads_of_rel hrel]⟩
  clear h ho hapart
  induction hrel with
  | done trailing =>
    cases hformed with
    | done htrailing => exact .done htrailing
  | @rule leading head head' block next next' hhead hnext ih =>
    cases hformed with
    | rule hlead hread hbody hnext' =>
      refine .rule hlead ?_ hbody (ih hnext')
      obtain ⟨hsound, hne, hfirst⟩ := Selector.sound_of_parseList hread.2 hhead
      refine ⟨hne, hsound, ?_, hfirst⟩
      rw [Selector.parseList_joined hhead]
      exact hread.1
  | atRule _ _ _ _ _ ih =>
    cases hformed with
    | atRule body hlead hkeyword hprelude hbody hunread hnext =>
      exact .atRule body hlead hkeyword hprelude hbody hunread (ih hnext)
  | group _ _ _ _ _ _ ihb ih =>
    cases hformed with
    | group hlead hkeyword hprelude hconditional hbody hnext =>
      exact .group hlead hkeyword hprelude hconditional (ihb hbody) (ih hnext)
  | comment _ _ _ ih =>
    cases hformed with
    | comment hlead hbody hnext => exact .comment hlead hbody (ih hnext)
  | unknown _ _ _ => cases hformed

end Stylesheet

end StylePrune
