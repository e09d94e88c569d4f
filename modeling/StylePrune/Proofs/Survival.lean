import Mathlib.Logic.Basic
import StylePrune.Prune

/-!
# What survives pruning

Pruning is written as two passes and a recursion that decides on a group after its body has been
rewritten. Here the outcome is described from the other end: every node of a sheet has a *place*,
whether the node at a place survives is read off the original sheet alone, and the pruned sheet is
the original one with the nodes that do not survive taken out and nothing else changed.

* **`Place`**, **`Place.Encloses`** — where a node stands, and which groups it stands in.
* **`Stylesheet.Survives`** — the criterion: a rule needs a selector that is kept, a group a node
  below it that stays on its own account, a comment needs the groups around it.
* **`Sheet.keepWhere`** — a sheet without the nodes at certain places.
* **`filter_survival`** — the pruned sheet is cut out of the original by the criterion.
-/

namespace StylePrune

/-! ## Places -/

/-- Where a node stands in a sheet. -/
inductive Place where
  /-- The first node of the sheet. -/
  | first
  /-- A place in the sheet that follows the first node. -/
  | behind (p : Place)
  /-- A place in the body of the first node, a group. -/
  | inside (p : Place)
deriving DecidableEq, Repr

/-- The first place is that of a group with the second one somewhere in its body, perhaps in the
body of a group in there. -/
inductive Place.Encloses : Place → Place → Prop where
  | first (q : Place) : Encloses .first (.inside q)
  | behind {p q : Place} (h : Encloses p q) : Encloses (.behind p) (.behind q)
  | inside {p q : Place} (h : Encloses p q) : Encloses (.inside p) (.inside q)

/-- What is inside of something inside is inside. Induction on the outer pair. -/
theorem Place.Encloses.trans {p q r : Place} (hpq : p.Encloses q) (hqr : q.Encloses r) :
    p.Encloses r := by
  induction hpq generalizing r with
  | first q =>
    cases hqr with
    | inside h => exact .first _
  | behind _ ih =>
    cases hqr with
    | behind h => exact .behind (ih h)
  | inside _ ih =>
    cases hqr with
    | inside h => exact .inside (ih h)

/-- A node apart from what follows it. -/
inductive Node (σ : Type) where
  | rule (leading : Text) (head : σ) (block : Text)
  | atRule (leading keyword prelude : Text) (block : Option Text)
  | group (leading keyword prelude : Text) (hidden : Option Text) (body : Sheet σ)
  | comment (leading text : Text)
  | unknown (value : Text)

namespace Sheet

variable {σ τ : Type}

def node? : Sheet σ → Place → Option (Node σ)
  | .rule leading head block _, .first => some (.rule leading head block)
  | .atRule leading keyword prelude block _, .first => some (.atRule leading keyword prelude block)
  | .group leading keyword prelude hidden body _, .first =>
    some (.group leading keyword prelude hidden body)
  | .comment leading t _, .first => some (.comment leading t)
  | .unknown value _, .first => some (.unknown value)
  | .rule _ _ _ next, .behind p => next.node? p
  | .atRule _ _ _ _ next, .behind p => next.node? p
  | .group _ _ _ _ _ next, .behind p => next.node? p
  | .comment _ _ next, .behind p => next.node? p
  | .unknown _ next, .behind p => next.node? p
  | .group _ _ _ _ body _, .inside p => body.node? p
  | _, _ => none

def mapHeads (f : σ → τ) : Sheet σ → Sheet τ
  | .done trailing => .done trailing
  | .rule leading head block next => .rule leading (f head) block (next.mapHeads f)
  | .atRule leading keyword prelude block next =>
    .atRule leading keyword prelude block (next.mapHeads f)
  | .group leading keyword prelude hidden body next =>
    .group leading keyword prelude hidden (body.mapHeads f) (next.mapHeads f)
  | .comment leading t next => .comment leading t (next.mapHeads f)
  | .unknown value next => .unknown value (next.mapHeads f)

open Classical in
/-- The sheet with the nodes at the places that are not to be kept taken out, each with all that is
inside of it. The other nodes stay as they are, in their order. -/
noncomputable def keepWhere (keep : Place → Prop) : Sheet σ → Sheet σ
  | .done trailing => .done trailing
  | .rule leading head block next =>
    let next := next.keepWhere fun p => keep (.behind p)
    if keep .first then .rule leading head block next else next
  | .atRule leading keyword prelude block next =>
    let next := next.keepWhere fun p => keep (.behind p)
    if keep .first then .atRule leading keyword prelude block next else next
  | .group leading keyword prelude hidden body next =>
    let next := next.keepWhere fun p => keep (.behind p)
    if keep .first then
      .group leading keyword prelude hidden (body.keepWhere fun p => keep (.inside p)) next
    else next
  | .comment leading t next =>
    let next := next.keepWhere fun p => keep (.behind p)
    if keep .first then .comment leading t next else next
  | .unknown value next =>
    let next := next.keepWhere fun p => keep (.behind p)
    if keep .first then .unknown value next else next

end Sheet

/-! ## The criterion -/

namespace Stylesheet

variable {keeps : Selector → Bool} {s : Stylesheet}

/-- A node that stays on its own account: a rule with a selector that is kept, or an at-rule that is
no group. -/
def Anchors (keeps : Selector → Bool) : Node (List Selector) → Prop
  | .rule _ head _ => ∃ selector ∈ head, keeps selector = true
  | .atRule .. => True
  | .group .. | .comment .. | .unknown .. => False

/-- The place encloses a node that stays on its own account. -/
def HoldsAnchor (keeps : Selector → Bool) (s : Stylesheet) (p : Place) : Prop :=
  ∃ q node, p.Encloses q ∧ s.node? q = some node ∧ Anchors keeps node

/-- Whether the node at a place survives, by its kind. -/
def Survives (keeps : Selector → Bool) (s : Stylesheet) (p : Place) : Prop :=
  match s.node? p with
  | some (.rule _ head _) => ∃ selector ∈ head, keeps selector = true
  | some (.atRule ..) => True
  | some (.group ..) => HoldsAnchor keeps s p
  | some (.comment ..) => ∀ q, q.Encloses p → HoldsAnchor keeps s q
  | some (.unknown _) | none => False

/-! ## The criterion from node to node

A place of the sheet behind the first node, or of the body of the first node, is a place of the
whole sheet. The criterion says the same of it there, except that a comment in a body asks for one
more group. -/

theorem firstUnknown?_group_eq_none {leading keyword prelude : Text} {hidden : Option Text}
    {body next : Stylesheet}
    (h : Sheet.firstUnknown? (.group leading keyword prelude hidden body next) = none) :
    body.firstUnknown? = none ∧ next.firstUnknown? = none := by
  rw [Sheet.firstUnknown?] at h
  split at h
  · cases h
  · rename_i hbody
    exact ⟨hbody, h⟩

/-- Somewhere in the sheet stands a node that stays on its own account. -/
def HasAnchor (keeps : Selector → Bool) (s : Stylesheet) : Prop :=
  ∃ q node, s.node? q = some node ∧ Anchors keeps node

/-- What a place behind the first node encloses does not depend on that node. -/
theorem holdsAnchor_behind {next : Stylesheet} (hnode : ∀ p, s.node? (.behind p) = next.node? p)
    (p : Place) : HoldsAnchor keeps s (.behind p) ↔ HoldsAnchor keeps next p := by
  constructor
  · rintro ⟨q, node, hq, hn, ha⟩
    cases hq with
    | behind hq => exact ⟨_, node, hq, hnode _ ▸ hn, ha⟩
  · rintro ⟨q, node, hq, hn, ha⟩
    exact ⟨.behind q, node, .behind hq, (hnode q).trans hn, ha⟩

/-- What a place in a body encloses is in that body. -/
theorem holdsAnchor_inside {body : Stylesheet} (hnode : ∀ p, s.node? (.inside p) = body.node? p)
    (p : Place) : HoldsAnchor keeps s (.inside p) ↔ HoldsAnchor keeps body p := by
  constructor
  · rintro ⟨q, node, hq, hn, ha⟩
    cases hq with
    | inside hq => exact ⟨_, node, hq, hnode _ ▸ hn, ha⟩
  · rintro ⟨q, node, hq, hn, ha⟩
    exact ⟨.inside q, node, .inside hq, (hnode q).trans hn, ha⟩

/-- The first place encloses what the body of the first node holds. -/
theorem holdsAnchor_first {body : Stylesheet} (hnode : ∀ p, s.node? (.inside p) = body.node? p) :
    HoldsAnchor keeps s .first ↔ HasAnchor keeps body := by
  constructor
  · rintro ⟨q, node, hq, hn, ha⟩
    cases hq with
    | first q => exact ⟨q, node, hnode _ ▸ hn, ha⟩
  · rintro ⟨q, node, hn, ha⟩
    exact ⟨.inside q, node, .first q, (hnode q).trans hn, ha⟩

/-- Whether a node behind the first one survives does not depend on the first one. -/
theorem survives_behind {next : Stylesheet} (hnode : ∀ p, s.node? (.behind p) = next.node? p)
    (p : Place) : Survives keeps s (.behind p) ↔ Survives keeps next p := by
  have hall : (∀ q, q.Encloses (.behind p) → HoldsAnchor keeps s q) ↔
      ∀ q, q.Encloses p → HoldsAnchor keeps next q := by
    constructor
    · intro h q hq
      exact (holdsAnchor_behind hnode q).1 (h (.behind q) (.behind hq))
    · intro h q hq
      cases hq with
      | behind hq => exact (holdsAnchor_behind hnode _).2 (h _ hq)
  unfold Survives
  rw [hnode]
  split <;> simp only [holdsAnchor_behind hnode, hall]

/-- Where the body of the first node holds a node that stays on its own account, the nodes of that
body survive in the sheet as they do in the body alone. -/
theorem survives_inside {body : Stylesheet} (hnode : ∀ p, s.node? (.inside p) = body.node? p)
    (hbody : HasAnchor keeps body) (p : Place) :
    Survives keeps s (.inside p) ↔ Survives keeps body p := by
  have hall : (∀ q, q.Encloses (.inside p) → HoldsAnchor keeps s q) ↔
      ∀ q, q.Encloses p → HoldsAnchor keeps body q := by
    constructor
    · intro h q hq
      exact (holdsAnchor_inside hnode q).1 (h (.inside q) (.inside hq))
    · -- besides the groups of the body the comment asks for the first node, which holds an anchor
      intro h q hq
      cases hq with
      | first => exact (holdsAnchor_first hnode).2 hbody
      | inside hq => exact (holdsAnchor_inside hnode _).2 (h _ hq)
  unfold Survives
  rw [hnode]
  split <;> simp only [holdsAnchor_inside hnode, hall]

/-- A surviving node drags the groups around it along. -/
theorem Survives.of_encloses {p q : Place} (hpq : p.Encloses q) (hq : Survives keeps s q) :
    HoldsAnchor keeps s p := by
  unfold Survives at hq
  split at hq
  · rename_i hnode
    exact ⟨q, _, hpq, hnode, hq⟩
  · rename_i hnode
    exact ⟨q, _, hpq, hnode, trivial⟩
  · obtain ⟨r, node, hqr, hnode, ha⟩ := hq
    exact ⟨r, node, hpq.trans hqr, hnode, ha⟩
  · exact hq p hpq
  · exact hq.elim
  · exact hq.elim

/-! ## The pruned sheet -/

/-- Nothing stands in an empty sheet. -/
theorem not_hasAnchor_done {trailing : Text} : ¬ HasAnchor keeps (.done trailing) := by
  rintro ⟨q, node, hn, -⟩
  cases q <;> cases hn

/-- A sheet that begins with a rule holds an anchor if the rule is one, or if what follows does. -/
theorem hasAnchor_rule {leading block : Text} {head : List Selector} {next : Stylesheet} :
    HasAnchor keeps (.rule leading head block next) ↔
      (∃ selector ∈ head, keeps selector = true) ∨ HasAnchor keeps next := by
  constructor
  · rintro ⟨q, node, hn, ha⟩
    cases q with
    | first =>
      cases hn
      exact .inl ha
    | behind q => exact .inr ⟨q, node, hn, ha⟩
    | inside q => cases hn
  · rintro (ha | ⟨q, node, hn, ha⟩)
    · exact ⟨.first, _, rfl, ha⟩
    · exact ⟨.behind q, node, hn, ha⟩

/-- A group is no anchor itself: the one it brings stands in its body. -/
theorem hasAnchor_group {leading keyword prelude : Text} {hidden : Option Text}
    {body next : Stylesheet} :
    HasAnchor keeps (.group leading keyword prelude hidden body next) ↔
      HasAnchor keeps body ∨ HasAnchor keeps next := by
  constructor
  · rintro ⟨q, node, hn, ha⟩
    cases q with
    | first =>
      cases hn
      exact ha.elim
    | behind q => exact .inr ⟨q, node, hn, ha⟩
    | inside q => exact .inl ⟨q, node, hn, ha⟩
  · rintro (⟨q, node, hn, ha⟩ | ⟨q, node, hn, ha⟩)
    · exact ⟨.inside q, node, hn, ha⟩
    · exact ⟨.behind q, node, hn, ha⟩

theorem hasAnchor_comment {leading t : Text} {next : Stylesheet} :
    HasAnchor keeps (.comment leading t next) ↔ HasAnchor keeps next := by
  constructor
  · rintro ⟨q, node, hn, ha⟩
    cases q with
    | first =>
      cases hn
      exact ha.elim
    | behind q => exact ⟨q, node, hn, ha⟩
    | inside q => cases hn
  · rintro ⟨q, node, hn, ha⟩
    exact ⟨.behind q, node, hn, ha⟩

/-- A sheet keeps a node other than a comment exactly when one of its nodes stays on its own
account. Induction on the sheet; the body of a group decides on the group. -/
theorem hasContent_prune (hs : s.firstUnknown? = none) :
    (prune keeps s).hasContent = true ↔ HasAnchor keeps s := by
  induction s with
  | done trailing =>
    show false = true ↔ _
    simp only [not_hasAnchor_done, Bool.false_eq_true]
  | rule leading head block next ih =>
    rw [hasAnchor_rule, ← ih hs, prune]
    split
    · -- every selector was rejected: the rule is gone, and what follows decides.
      rename_i hnil
      have hnone : ¬ ∃ selector ∈ head, keeps selector = true := by
        simpa [List.filter_eq_nil_iff] using hnil
      simp only [hnone, false_or]
    · rename_i hne
      have hsome : ∃ selector ∈ head, keeps selector = true := by
        obtain ⟨selector, hmem⟩ := List.exists_mem_of_ne_nil _ hne
        exact ⟨selector, List.mem_filter.1 hmem⟩
      simp only [hsome, true_or, iff_true]
      rfl
  | atRule leading keyword prelude block next =>
    exact ⟨fun _ => ⟨.first, _, rfl, trivial⟩, fun _ => rfl⟩
  | group leading keyword prelude hidden body next ihb ih =>
    obtain ⟨hbody, hnext⟩ := firstUnknown?_group_eq_none hs
    rw [hasAnchor_group, ← ihb hbody, ← ih hnext, prune]
    split
    · rename_i hcontent
      simp only [hcontent, true_or, iff_true]
      rfl
    · -- the pruned body has no content: the group is gone with it.
      rename_i hcontent
      simp only [hcontent, Bool.false_eq_true, false_or]
  | comment leading t next ih =>
    rw [prune, Sheet.hasContent, ih hs, hasAnchor_comment]
  | unknown value next => cases hs

/-- Which nodes are taken out depends only on the places where nodes stand. -/
theorem keepWhere_congr {σ : Type} {s : Sheet σ} {keep keep' : Place → Prop}
    (h : ∀ p, keep p ↔ keep' p) : s.keepWhere keep = s.keepWhere keep' := by
  rw [funext fun p => propext (h p)]

/-- The pruned sheet is the sheet with its heads filtered and the nodes that do not survive taken
out. Induction on the sheet; `hasContent_prune` decides on a group. -/
theorem prune_eq_keepWhere (hs : s.firstUnknown? = none) :
    prune keeps s = (s.mapHeads (List.filter keeps)).keepWhere (Survives keeps s) := by
  induction s with
  | done => rfl
  | rule leading head block next ih =>
    have hnext := keepWhere_congr (s := next.mapHeads (List.filter keeps))
      (@survives_behind keeps (.rule leading head block next) next fun _ => rfl)
    have hfirst : Survives keeps (.rule leading head block next) .first ↔
        head.filter keeps ≠ [] := by
      simp [Survives, Sheet.node?, List.filter_eq_nil_iff]
    simp only [Sheet.mapHeads, Sheet.keepWhere, hnext, ← ih hs, prune, hfirst]
    split
    · rename_i hnil
      rw [if_neg (not_not.2 hnil)]
    · rename_i hne
      rw [if_pos hne]
  | atRule leading keyword prelude block next ih =>
    have hnext := keepWhere_congr (s := next.mapHeads (List.filter keeps))
      (@survives_behind keeps (.atRule leading keyword prelude block next) next fun _ => rfl)
    have hfirst : Survives keeps (.atRule leading keyword prelude block next) .first := trivial
    simp only [Sheet.mapHeads, Sheet.keepWhere, hnext, ← ih hs, prune, hfirst, if_true]
  | group leading keyword prelude hidden body next ihb ih =>
    obtain ⟨hbody, hnext⟩ := firstUnknown?_group_eq_none hs
    have hnext' := keepWhere_congr (s := next.mapHeads (List.filter keeps))
      (@survives_behind keeps (.group leading keyword prelude hidden body next) next fun _ => rfl)
    have hfirst : Survives keeps (.group leading keyword prelude hidden body next) .first ↔
        (prune keeps body).hasContent = true := by
      rw [hasContent_prune hbody]
      exact holdsAnchor_first fun _ => rfl
    simp only [Sheet.mapHeads, Sheet.keepWhere, hnext', ← ih hnext, prune, hfirst]
    split
    · rename_i hcontent
      -- the group stays, so a comment in its body asks for nothing more than in the body alone.
      have hanchor : HasAnchor keeps body := (hasContent_prune hbody).1 hcontent
      have hinside := keepWhere_congr (s := body.mapHeads (List.filter keeps))
        (@survives_inside keeps (.group leading keyword prelude hidden body next) body
          (fun _ => rfl) hanchor)
      rw [hinside, ← ihb hbody]
    · rfl
  | comment leading t next ih =>
    have hnext := keepWhere_congr (s := next.mapHeads (List.filter keeps))
      (@survives_behind keeps (.comment leading t next) next fun _ => rfl)
    have hfirst : Survives keeps (.comment leading t next) .first := by
      intro q hq
      cases hq
    simp only [Sheet.mapHeads, Sheet.keepWhere, hnext, ← ih hs, prune, hfirst, if_true]
  | unknown value next => cases hs

/-! ## The two passes

Pruning the rules outside all groups first leaves the groups as they are, so the second pass meets
in them what the whole of pruning would. -/

/-- The first pass leaves what is inside the groups alone. -/
theorem firstNestedUnknown?_pruneRules :
    (pruneRules keeps s).firstNestedUnknown? = s.firstNestedUnknown? := by
  induction s with
  | done => rfl
  | rule leading head block next ih =>
    simp only [pruneRules, Sheet.firstNestedUnknown?]
    split
    · exact ih
    · exact ih
  | atRule leading keyword prelude block next ih => exact ih
  | group leading keyword prelude hidden body next _ ih =>
    simp only [pruneRules, Sheet.firstNestedUnknown?, ih]
  | comment leading t next ih => exact ih
  | unknown value next ih => exact ih

/-- The second pass rejects the same selectors whether the first one was made or not. -/
theorem rejectedGroups_pruneRules :
    rejectedGroups keeps (pruneRules keeps s) = rejectedGroups keeps s := by
  induction s with
  | done => rfl
  | rule leading head block next ih =>
    simp only [pruneRules, rejectedGroups]
    split
    · exact ih
    · exact ih
  | atRule leading keyword prelude block next ih => exact ih
  | group leading keyword prelude hidden body next _ ih =>
    simp only [pruneRules, rejectedGroups, ih]
  | comment leading t next ih => exact ih
  | unknown value next ih => exact ih

/-- Pruning is the pass over the rules and then the pass over the groups: the selectors that both
reject, one after the other, and the sheet that the second one leaves. -/
theorem filter_eq_passes (u : Usage) (s : Stylesheet) :
    filter u s =
      let groups := filterGroups u (filterRules u s).sheet
      ⟨groups.result.map (rejectedRules u.keeps s ++ ·), groups.sheet⟩ := by
  simp only [filter, filterGroups, filterRules, firstNestedUnknown?_pruneRules]
  split
  · rfl
  · rw [pruneGroups_pruneRules, rejectedGroups_pruneRules]
    rfl

theorem firstNestedUnknown?_eq_none (hs : s.firstUnknown? = none) :
    s.firstNestedUnknown? = none := by
  induction s with
  | done => rfl
  | rule leading head block next ih => exact ih hs
  | atRule leading keyword prelude block next ih => exact ih hs
  | group leading keyword prelude hidden body next _ ih =>
    obtain ⟨hbody, hnext⟩ := firstUnknown?_group_eq_none hs
    simp only [Sheet.firstNestedUnknown?, hbody, ih hnext]
  | comment leading t next ih => exact ih hs
  | unknown value next => cases hs

/-- Without unknown things, pruning succeeds and gives the pruned sheet. -/
theorem filter_of_nodes (u : Usage) (hs : s.firstUnknown? = none) :
    filter u s = ⟨.ok (rejected u.keeps s), prune u.keeps s⟩ := by
  simp only [filter, firstNestedUnknown?_eq_none hs]

/-- A place that encloses a node is the place of a group. -/
theorem node?_of_encloses {p q : Place} {node : Node (List Selector)} (hpq : p.Encloses q)
    (hq : s.node? q = some node) :
    ∃ leading keyword prelude hidden body,
      s.node? p = some (.group leading keyword prelude hidden body) := by
  induction hpq generalizing s with
  | first q =>
    cases s with
    | group leading keyword prelude hidden body next =>
      exact ⟨leading, keyword, prelude, hidden, body, rfl⟩
    | _ => cases hq
  | behind _ ih =>
    cases s with
    | done => cases hq
    | _ => exact ih hq
  | inside _ ih =>
    cases s with
    | group => exact ih hq
    | _ => cases hq

/-- Pruning succeeds on every sheet of rules, at-rules, groups and comments, and leaves the sheet
with its heads filtered and the nodes that do not survive taken out: what is left keeps its order,
its texts and its blocks. A node survives only together with all groups around it. -/
theorem filter_survival {s : Stylesheet} (u : Usage) (hs : s.firstUnknown? = none) :
    (∃ rejected, (filter u s).result = .ok rejected) ∧
      (filter u s).sheet =
        (s.mapHeads (List.filter u.keeps)).keepWhere (Survives u.keeps s) ∧
      ∀ p q, p.Encloses q → Survives u.keeps s q → Survives u.keeps s p := by
  have hfilter := filter_of_nodes u hs
  refine ⟨⟨_, congrArg Pruned.result hfilter⟩, ?_, ?_⟩
  · rw [hfilter]
    exact prune_eq_keepWhere hs
  · -- what encloses a node is a group, and a group survives by what it holds.
    intro p q hpq hq
    have hp := hq.of_encloses hpq
    obtain ⟨r, node, hpr, hr, -⟩ := id hp
    obtain ⟨leading, keyword, prelude, hidden, body, hgroup⟩ := node?_of_encloses hpr hr
    unfold Survives
    rw [hgroup]
    exact hp

/-- A group with a comment and a rule that is not used, and a group in it with an at-rule: the outer
group survives for the sake of the at-rule, and the comment with it. -/
theorem filter_survival_nested :
    let used : Selector := ⟨[⟨.tag, ['b'], ['b']⟩], [], []⟩
    let unused : Selector := ⟨[⟨.tag, ['a'], ['a']⟩], [], []⟩
    let inner : Stylesheet := .atRule [] ['@', 'i'] [] none (.done [])
    let body : Stylesheet := .comment [] ['/', '*', '*', '/'] (.rule [] [unused] ['{', '}']
      (.group [] ['@', 'm'] [] none inner (.done [])))
    let s : Stylesheet := .group [' '] ['@', 'm'] [] none body
      (.rule [] [unused, used] ['{', '}'] (.done [' ']))
    let u : Usage := ⟨[], [], [['b']], []⟩
    s.firstUnknown? = none ∧
      (filter u s).sheet = (s.mapHeads (List.filter u.keeps)).keepWhere (Survives u.keeps s) ∧
      Survives u.keeps s (.inside .first) ∧ Survives u.keeps s .first ∧
      ¬ Survives u.keeps s (.inside (.behind .first)) := by
  intro used unused inner body s u
  have hs : s.firstUnknown? = none := rfl
  have hcut := filter_survival u hs
  have houter : Survives u.keeps s .first :=
    ⟨.inside (.behind (.behind (.inside .first))), _, .first _, rfl, trivial⟩
  have hcomment : Survives u.keeps s (.inside .first) := by
    intro q hq
    cases hq with
    | first => exact houter
    | inside hq => cases hq
  have hrule : ¬ Survives u.keeps s (.inside (.behind .first)) := by
    rintro ⟨selector, hmem, hkeep⟩
    rw [List.mem_singleton.1 hmem] at hkeep
    cases hkeep
  exact ⟨hs, hcut.2.1, hcomment, hcut.2.2 _ _ (.first _) hcomment, hrule⟩

end Stylesheet

end StylePrune
