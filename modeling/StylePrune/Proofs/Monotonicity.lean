import StylePrune.Proofs.Conservation
import StylePrune.Text.Occurrence

/-!
# More names keep more

With more names in use, or a content that holds more, pruning keeps more of a sheet and rejects
less. For a selector this is plain, since each of its parts needs a name. A group goes when nothing
in it stays, so there the order is read off the places that survive: what lets a group stay with
fewer names stays in it with more.

* **`Usage.Within`**, **`Usage.ofContent_within`** — fewer names, and a content that holds less.
* **`Stylesheet.Survives.mono`** — a place that survives survives when more is kept.
* **`Stylesheet.filter_mono`** — what is kept and what is rejected, with fewer names and with more.
-/

namespace StylePrune

/-! ## Fewer names -/

/-- The names in use are all in use for the second usage too. -/
structure Usage.Within (u v : Usage) : Prop where
  classes : u.classes ⊆ v.classes
  ids : u.ids ⊆ v.ids
  tags : u.tags ⊆ v.tags
  attributes : u.attributes ⊆ v.attributes

namespace Corpus

variable {c c' : Corpus}

/-- A name that is mentioned is mentioned wherever the corpus is part of a longer one. -/
theorem mentions_mono (h : c.text <:+: c'.text) {name : Text} (hname : c.mentions name = true) :
    c'.mentions name = true := by
  simp only [mentions, Bool.and_eq_true, Text.occursIn_iff] at hname ⊢
  exact ⟨hname.1, hname.2.trans h⟩

theorem mentioned_subset (h : c.text <:+: c'.text) (names : List Text) :
    c.mentioned names ⊆ c'.mentioned names := by
  intro name hname
  rw [mentioned, Text.mem_firstSeen, List.mem_filter] at hname ⊢
  exact ⟨hname.1, mentions_mono h hname.2⟩

theorem mentionedDecoded_subset (h : c.text <:+: c'.text) (names : List Text) :
    c.mentionedDecoded names ⊆ c'.mentionedDecoded names := by
  intro name hname
  rw [mentionedDecoded, Text.mem_firstSeen, List.mem_filter] at hname ⊢
  exact ⟨hname.1, mentions_mono h hname.2⟩

end Corpus

namespace Usage

variable {u v : Usage} {s : Stylesheet}

theorem mentionedOf_subset {c c' : Corpus} (h : c.text <:+: c'.text) (kind : PartKind) :
    mentionedOf c kind s ⊆ mentionedOf c' kind s := by
  intro name hname
  rw [mentionedOf, List.mem_append] at hname ⊢
  cases hname with
  | inl hplain => exact .inl (Corpus.mentioned_subset h _ hplain)
  | inr hspecial => exact .inr (Corpus.mentionedDecoded_subset h _ hspecial)

/-- A content that is part of a longer one, in lower case, uses no other names. -/
theorem ofContent_within {content content' : Text} (h : content.lower <:+: content'.lower) :
    (ofContent s content).Within (ofContent s content') where
  classes := mentionedOf_subset h _
  ids := mentionedOf_subset h _
  tags := Corpus.mentioned_subset h _
  attributes := Corpus.mentionedDecoded_subset h _

theorem Within.allows (h : u.Within v) {p : Part} (hp : u.allows p = true) : v.allows p = true := by
  unfold Usage.allows at hp ⊢
  cases hkind : p.kind <;> simp only [hkind, namesOf?, List.contains_iff_mem] at hp ⊢
  case className => exact h.classes hp
  case idName => exact h.ids hp
  case tag => exact h.tags hp
  case «attribute» => exact h.attributes hp

/-- With more names in use, more selectors are kept. -/
theorem Within.keeps (h : u.Within v) (x : Selector) (hx : u.keeps x = true) : v.keeps x = true := by
  rw [Usage.keeps, List.all_eq_true] at hx ⊢
  intro p hp
  exact h.allows (hx p hp)

end Usage

/-! ## What survives when more is kept -/

namespace Stylesheet

variable {keeps keeps' : Selector → Bool} {s : Stylesheet}

section

variable (hle : ∀ x, keeps x = true → keeps' x = true)
include hle

theorem Anchors.mono {node : Node (List Selector)} (h : Anchors keeps node) :
    Anchors keeps' node := by
  cases node with
  | rule leading head block =>
    obtain ⟨x, hmem, hx⟩ := h
    exact ⟨x, hmem, hle x hx⟩
  | atRule leading keyword prelude block => exact trivial
  | group leading keyword prelude hidden body => exact h
  | comment leading t => exact h
  | unknown value => exact h

theorem HoldsAnchor.mono {p : Place} (h : HoldsAnchor keeps s p) : HoldsAnchor keeps' s p := by
  obtain ⟨q, node, hq, hnode, hanchor⟩ := h
  exact ⟨q, node, hq, hnode, hanchor.mono hle⟩

/-- A node that survives survives when more is kept: what a group or a comment asks for, in the
group or in those around the comment, stays on its own account. -/
theorem Survives.mono {p : Place} (h : Survives keeps s p) : Survives keeps' s p := by
  unfold Survives at h ⊢
  split at h
  · obtain ⟨x, hmem, hx⟩ := h
    exact ⟨x, hmem, hle x hx⟩
  · trivial
  · exact h.mono hle
  · intro q hq
    exact (h q hq).mono hle
  · exact h
  · exact h

theorem rejected_sublist (s : Stylesheet) : (rejected keeps' s).Sublist (rejected keeps s) := by
  rw [rejected_eq, rejected_eq]
  apply List.monotone_filter_right
  intro x hx
  cases hkeeps : keeps x with
  | false => rfl
  | true =>
    rw [hle x hkeeps] at hx
    cases hx

theorem selectors_prune_sublist (s : Stylesheet) :
    (selectors (prune keeps s)).Sublist (selectors (prune keeps' s)) := by
  rw [selectors_prune, selectors_prune]
  exact List.monotone_filter_right _ hle

end

/-- Pruned with the first names, a sheet keeps no more than with the second ones: no selector and no
node. What is rejected with the second ones is rejected with the first ones too. -/
structure KeepsWithin (s : Stylesheet) (u v : Usage) : Prop where
  selectors : (selectors (filter u s).sheet).Sublist (selectors (filter v s).sheet)
  rejected : ∃ more fewer, (filter u s).result = .ok more ∧ (filter v s).result = .ok fewer ∧
    fewer.Sublist more
  sheet : (filter u s).sheet = (s.mapHeads (List.filter u.keeps)).keepWhere (Survives u.keeps s)
  sheet' : (filter v s).sheet = (s.mapHeads (List.filter v.keeps)).keepWhere (Survives v.keeps s)
  survives : ∀ p, Survives u.keeps s p → Survives v.keeps s p

theorem keepsWithin_of_within (hs : s.firstUnknown? = none) {u v : Usage} (h : u.Within v) :
    s.KeepsWithin u v where
  selectors := by
    rw [filter_of_nodes u hs, filter_of_nodes v hs]
    exact selectors_prune_sublist h.keeps s
  rejected := by
    rw [filter_of_nodes u hs, filter_of_nodes v hs]
    exact ⟨_, _, rfl, rfl, rejected_sublist h.keeps s⟩
  sheet := by
    rw [filter_of_nodes u hs]
    exact prune_eq_keepWhere hs
  sheet' := by
    rw [filter_of_nodes v hs]
    exact prune_eq_keepWhere hs
  survives _ hp := hp.mono h.keeps

/-- On a sheet of rules, at-rules, groups and comments, pruning keeps more and rejects less with
more names in use, and so it does for a content that holds the other one, both in lower case: the
selectors that are left, the rules, at-rules and comments, and the selectors that are rejected. -/
theorem filter_mono (hs : s.firstUnknown? = none) :
    (∀ u v : Usage, u.Within v → s.KeepsWithin u v) ∧
      ∀ c c' : Text, c.lower <:+: c'.lower →
        s.KeepsWithin (Usage.ofContent s c) (Usage.ofContent s c') := by
  constructor
  · intro u v h
    exact keepsWithin_of_within hs h
  · intro c c' h
    exact keepsWithin_of_within hs (Usage.ofContent_within h)

/-- A group with a comment and a rule: the longer content holds the tag of the rule, in capitals, so
with it the group and the comment survive. -/
theorem filter_mono_group :
    let tag (name : Char) : Selector := ⟨[⟨.tag, [name], [name]⟩], [], []⟩
    let body : Stylesheet :=
      .comment [] ['/', '*', '*', '/'] (.rule [] [tag 'b'] ['{', '}'] (.done []))
    let s : Stylesheet :=
      .group [] ['@', 'm'] [] none body (.rule [] [tag 'a', tag 'b'] ['{', '}'] (.done []))
    let u : Usage := ⟨[], [], [['a']], []⟩
    let v : Usage := ⟨[], [], [['b'], ['a']], []⟩
    s.firstUnknown? = none ∧ u.Within v ∧ s.KeepsWithin u v ∧
      Text.lower ['a'] <:+: Text.lower ['B', 'A'] ∧
      s.KeepsWithin (Usage.ofContent s ['a']) (Usage.ofContent s ['B', 'A']) ∧
      ¬ Survives (Usage.ofContent s ['a']).keeps s .first ∧
      Survives (Usage.ofContent s ['B', 'A']).keeps s (.inside .first) := by
  intro tag body s u v
  have hs : s.firstUnknown? = none := rfl
  have hwithin : u.Within v := ⟨by decide, by decide, by decide, by decide⟩
  have hinfix : Text.lower ['a'] <:+: Text.lower ['B', 'A'] := by decide +kernel
  obtain ⟨husage, hcontent⟩ := filter_mono hs
  refine ⟨hs, hwithin, husage u v hwithin, hinfix, hcontent _ _ hinfix, ?_, ?_⟩
  · intro h
    have hanchor : HasAnchor (Usage.ofContent s ['a']).keeps body :=
      (holdsAnchor_first (s := s) fun _ => rfl).1 h
    rw [← hasContent_prune rfl] at hanchor
    revert hanchor
    decide +kernel
  · intro q hq
    cases hq with
    | first =>
      refine ⟨.inside (.behind .first), _, .first _, rfl, tag 'b', List.mem_singleton_self _, ?_⟩
      decide +kernel
    | inside hq => cases hq

end Stylesheet

end StylePrune
