import Mathlib.Data.List.Basic
import StylePrune.Proofs.Survival

/-!
# No selector is lost

Pruning drops selectors at three places: a rule loses the selectors that are not kept, a rule
without selectors goes, and a group without content goes with all that is left in it. Meanwhile one
list collects what is rejected. Here the sheet is followed through pruning together with that list,
and both are told from the original sheet alone.

* **`sweep`**, **`filter_eq_sweep`** — pruning step by step, with the list of what was rejected so
  far.
* **`selectors_prune`** — of all selectors, those that are kept remain, in their order.
* **`filter_conserves`** — every selector is either kept or rejected, as often as it occurs.
-/

namespace StylePrune

namespace Sheet

variable {σ : Type}

/-- The heads of the rules outside all groups, from front to back. -/
def outerHeads : Sheet σ → List σ
  | .done _ => []
  | .rule _ head _ next => head :: next.outerHeads
  | .atRule _ _ _ _ next => next.outerHeads
  | .group _ _ _ _ _ next => next.outerHeads
  | .comment _ _ next => next.outerHeads
  | .unknown _ next => next.outerHeads

/-- The heads of the rules inside groups, from front to back, those of a group all before those of
the groups behind it. -/
def innerHeads : Sheet σ → List σ
  | .done _ => []
  | .rule _ _ _ next => next.innerHeads
  | .atRule _ _ _ _ next => next.innerHeads
  | .group _ _ _ _ body next => body.heads ++ next.innerHeads
  | .comment _ _ next => next.innerHeads
  | .unknown _ next => next.innerHeads

/-- The rules outside all groups and the rules inside of them are all rules. -/
theorem outerHeads_append_innerHeads_perm (s : Sheet σ) :
    (s.outerHeads ++ s.innerHeads).Perm s.heads := by
  induction s with
  | done => exact .nil
  | rule leading head block next ih => exact ih.cons head
  | atRule leading keyword prelude block next ih => exact ih
  | group leading keyword prelude hidden body next _ ih =>
    -- the rules of the body stand behind all outer rules on the left, and first on the right
    have hfront := List.perm_append_comm_assoc next.outerHeads body.heads next.innerHeads
    exact hfront.trans (ih.append_left body.heads)
  | comment leading t next ih => exact ih
  | unknown value next ih => exact ih

end Sheet

namespace Stylesheet

variable {keeps : Selector → Bool}

/-! ## Pruning step by step -/

/-- Goes through a sheet from front to back, with the selectors that were rejected before. Prunes
the rules on the way if `rules` is set, and the groups, with all that is in them, if `groups` is. -/
def sweep (keeps : Selector → Bool) (rules groups : Bool) :
    Stylesheet → List Selector → Stylesheet × List Selector
  | .done trailing, reported => (.done trailing, reported)
  | .rule leading head block next, reported =>
    if rules then
      let swept := sweep keeps rules groups next (reported ++ head.filter fun s => !keeps s)
      match head.filter keeps with
      | [] => swept
      | kept => (.rule leading kept block swept.1, swept.2)
    else
      let swept := sweep keeps rules groups next reported
      (.rule leading head block swept.1, swept.2)
  | .atRule leading keyword prelude block next, reported =>
    let swept := sweep keeps rules groups next reported
    (.atRule leading keyword prelude block swept.1, swept.2)
  | .group leading keyword prelude hidden body next, reported =>
    if groups then
      let inside := sweep keeps true true body reported
      let swept := sweep keeps rules groups next inside.2
      if inside.1.hasContent then
        (.group leading keyword prelude hidden inside.1 swept.1, swept.2)
      else swept
    else
      let swept := sweep keeps rules groups next reported
      (.group leading keyword prelude hidden body swept.1, swept.2)
  | .comment leading t next, reported =>
    let swept := sweep keeps rules groups next reported
    (.comment leading t swept.1, swept.2)
  | .unknown value next, reported =>
    let swept := sweep keeps rules groups next reported
    (.unknown value swept.1, swept.2)

/-- Where rules and groups are pruned alike, the sheet is pruned and the selectors that are not kept
are put behind those reported before. Induction on the sheet, for every list reported before: a body
starts with the list that the sheet before it leaves. -/
theorem sweep_all (s : Stylesheet) (reported : List Selector) :
    sweep keeps true true s reported =
      (prune keeps s, reported ++ (selectors s).filter fun s => !keeps s) := by
  induction s generalizing reported with
  | done => simp [sweep, prune, selectors, Sheet.heads]
  | rule leading head block next ih =>
    simp only [sweep, ih, prune, if_true]
    cases head.filter keeps <;> simp [selectors, Sheet.heads]
  | atRule leading keyword prelude block next ih =>
    simp only [sweep, ih, prune, selectors, Sheet.heads]
  | group leading keyword prelude hidden body next ihb ih =>
    simp only [sweep, ihb, ih, prune, if_true]
    split <;> simp [selectors, Sheet.heads]
  | comment leading t next ih => simp only [sweep, ih, prune, selectors, Sheet.heads]
  | unknown value next ih => simp only [sweep, ih, prune, selectors, Sheet.heads]

/-- A pass over the rules outside all groups. -/
theorem sweep_rules (s : Stylesheet) (reported : List Selector) :
    sweep keeps true false s reported =
      (pruneRules keeps s, reported ++ rejectedRules keeps s) := by
  induction s generalizing reported with
  | done => simp [sweep, pruneRules, rejectedRules]
  | rule leading head block next ih =>
    simp only [sweep, ih, pruneRules, rejectedRules, if_true, List.append_assoc]
    cases head.filter keeps <;> rfl
  | atRule leading keyword prelude block next ih => simp only [sweep, ih, pruneRules, rejectedRules]
  | group leading keyword prelude hidden body next _ ih =>
    simp only [sweep, ih, pruneRules, rejectedRules, Bool.false_eq_true, if_false]
  | comment leading t next ih => simp only [sweep, ih, pruneRules, rejectedRules]
  | unknown value next ih => simp only [sweep, ih, pruneRules, rejectedRules]

/-- A pass over the groups: everything inside of them is pruned. -/
theorem sweep_groups (s : Stylesheet) (reported : List Selector) :
    sweep keeps false true s reported =
      (pruneGroups keeps s, reported ++ rejectedGroups keeps s) := by
  induction s generalizing reported with
  | done => simp [sweep, pruneGroups, rejectedGroups]
  | rule leading head block next ih =>
    simp only [sweep, ih, pruneGroups, rejectedGroups, Bool.false_eq_true, if_false]
  | atRule leading keyword prelude block next ih =>
    simp only [sweep, ih, pruneGroups, rejectedGroups]
  | group leading keyword prelude hidden body next _ ih =>
    simp only [sweep, sweep_all, ih, pruneGroups, rejectedGroups, if_true, List.append_assoc]
    split <;> rfl
  | comment leading t next ih => simp only [sweep, ih, pruneGroups, rejectedGroups]
  | unknown value next ih => simp only [sweep, ih, pruneGroups, rejectedGroups]

/-- Pruning is the two passes one after the other, with one list of rejected selectors. -/
theorem filter_eq_sweep (u : Usage) {s : Stylesheet} (hs : s.firstUnknown? = none) :
    filter u s =
      let rules := sweep u.keeps true false s []
      let groups := sweep u.keeps false true rules.1 rules.2
      ⟨.ok groups.2, groups.1⟩ := by
  simp only [sweep_rules, sweep_groups, pruneGroups_pruneRules, rejectedGroups_pruneRules,
    filter_of_nodes u hs, rejected, List.nil_append]

/-! ## What remains and what is rejected -/

/-- A sheet without content has no selectors left. -/
theorem selectors_prune_of_not_hasContent {s : Stylesheet}
    (h : (prune keeps s).hasContent = false) : selectors (prune keeps s) = [] := by
  induction s with
  | done => rfl
  | rule leading head block next ih =>
    rw [prune] at h ⊢
    split at h
    · exact ih h
    · cases h
  | atRule leading keyword prelude block next => cases h
  | group leading keyword prelude hidden body next _ ih =>
    rw [prune] at h ⊢
    split at h
    · cases h
    · rename_i hbody
      rw [if_neg hbody]
      exact ih h
  | comment leading t next ih => exact ih h
  | unknown value next => cases h

/-- What remains are the selectors that are kept, in their order. Induction on the sheet; a group
that goes takes no selector with it that is kept. -/
theorem selectors_prune (s : Stylesheet) :
    selectors (prune keeps s) = (selectors s).filter keeps := by
  induction s with
  | done => rfl
  | rule leading head block next ih =>
    simp only [selectors] at ih
    rw [prune]
    split
    · rename_i hnil
      simp [selectors, Sheet.heads, ih, hnil]
    · simp [selectors, Sheet.heads, ih]
  | atRule leading keyword prelude block next ih => exact ih
  | group leading keyword prelude hidden body next ihb ih =>
    rw [prune]
    split
    · simp only [selectors] at ihb ih
      simp [selectors, Sheet.heads, ihb, ih]
    · rename_i hbody
      rw [selectors_prune_of_not_hasContent (by simpa using hbody)] at ihb
      simp only [selectors] at ihb ih
      simp [selectors, Sheet.heads, ← ihb, ih]
  | comment leading t next ih => exact ih
  | unknown value next ih => exact ih

theorem rejectedRules_eq (s : Stylesheet) :
    rejectedRules keeps s = s.outerHeads.flatten.filter fun s => !keeps s := by
  induction s with
  | done => rfl
  | rule leading head block next ih =>
    rw [rejectedRules, ih, Sheet.outerHeads, List.flatten_cons, List.filter_append]
  | atRule leading keyword prelude block next ih => exact ih
  | group leading keyword prelude hidden body next _ ih => exact ih
  | comment leading t next ih => exact ih
  | unknown value next ih => exact ih

theorem rejectedGroups_eq (s : Stylesheet) :
    rejectedGroups keeps s = s.innerHeads.flatten.filter fun s => !keeps s := by
  induction s with
  | done => rfl
  | rule leading head block next ih => exact ih
  | atRule leading keyword prelude block next ih => exact ih
  | group leading keyword prelude hidden body next _ ih =>
    rw [rejectedGroups, ih, Sheet.innerHeads, List.flatten_append, List.filter_append, selectors]
  | comment leading t next ih => exact ih
  | unknown value next ih => exact ih

/-- What is rejected are the selectors that are not kept, those outside all groups first. -/
theorem rejected_eq (s : Stylesheet) :
    rejected keeps s = (s.outerHeads ++ s.innerHeads).flatten.filter fun s => !keeps s := by
  rw [rejected, rejectedRules_eq, rejectedGroups_eq, List.flatten_append, List.filter_append]

theorem outer_inner_perm (s : Stylesheet) :
    (s.outerHeads ++ s.innerHeads).flatten.Perm (selectors s) :=
  s.outerHeads_append_innerHeads_perm.flatten

theorem mem_rejected_iff {s : Stylesheet} {selector : Selector} :
    selector ∈ rejected keeps s ↔ selector ∈ selectors s ∧ keeps selector = false := by
  rw [rejected_eq, List.mem_filter, (outer_inner_perm s).mem_iff, Bool.not_eq_true']

/-- Pruning a sheet of rules, at-rules, groups and comments, in two passes with one list of what is
rejected, rejects the selectors that are not kept, those of the rules outside all groups first, and
leaves those that are kept, all in their order. So every selector is either rejected or left, as
often as it occurs. -/
theorem filter_conserves {s : Stylesheet} (u : Usage) (hs : s.firstUnknown? = none) :
    ∃ rules rejected, sweep u.keeps true false s [] = rules ∧
      sweep u.keeps false true rules.1 rules.2 = ((filter u s).sheet, rejected) ∧
      (filter u s).result = .ok rejected ∧
      rejected = (s.outerHeads.flatten.filter fun s => !u.keeps s) ++
        (s.innerHeads.flatten.filter fun s => !u.keeps s) ∧
      selectors (filter u s).sheet = (selectors s).filter u.keeps ∧
      (rejected ++ selectors (filter u s).sheet).Perm (selectors s) ∧
      rejected.Disjoint (selectors (filter u s).sheet) := by
  have hfilter := filter_of_nodes u hs
  have hrejected : rejected u.keeps s =
      (s.outerHeads ++ s.innerHeads).flatten.filter fun s => !u.keeps s := by
    rw [rejected, rejectedRules_eq, rejectedGroups_eq, List.flatten_append, List.filter_append]
  have hleft : selectors (filter u s).sheet = (selectors s).filter u.keeps := by
    rw [hfilter]
    exact selectors_prune s
  refine ⟨_, rejected u.keeps s, rfl, ?_, congrArg Pruned.result hfilter, ?_, hleft, ?_, ?_⟩
  · have hsweep := filter_eq_sweep u hs
    have hresult := congrArg Pruned.result hsweep
    rw [hfilter] at hresult
    exact Prod.ext (congrArg Pruned.sheet hsweep).symm (Except.ok.inj hresult).symm
  · rw [hrejected, List.flatten_append, List.filter_append]
  · have hall : (rejected u.keeps s).Perm ((selectors s).filter fun s => !u.keeps s) := by
      rw [hrejected]
      exact s.outerHeads_append_innerHeads_perm.flatten.filter _
    rw [hleft]
    exact (hall.append_right _).trans
      (List.perm_append_comm.trans (List.filter_append_perm u.keeps (selectors s)))
  · rw [hleft, hrejected]
    intro selector hreject hkeep
    have hnot := (List.mem_filter.1 hreject).2
    rw [(List.mem_filter.1 hkeep).2] at hnot
    cases hnot

/-- A group that goes with its only rule, between two rules that lose a selector each: the selector
in the group is told last, and none is lost with the group. -/
theorem filter_conserves_group :
    let tag (name : Char) : Selector := ⟨[⟨.tag, [name], [name]⟩], [], []⟩
    let body : Stylesheet :=
      .rule [] [tag 'c'] ['{', '}'] (.comment [] ['/', '*', '*', '/'] (.done []))
    let s : Stylesheet := .rule [] [tag 'a', tag 'b'] ['{', '}']
      (.group [] ['@', 'm'] [] none body (.rule [] [tag 'b', tag 'd'] ['{', '}'] (.done [])))
    let u : Usage := ⟨[], [], [['b']], []⟩
    s.firstUnknown? = none ∧ (filter u s).result = .ok [tag 'a', tag 'd', tag 'c'] ∧
      selectors (filter u s).sheet = [tag 'b', tag 'b'] := by
  intro tag body s u
  have hs : s.firstUnknown? = none := rfl
  obtain ⟨-, rejected, -, -, hresult, hrejected, hleft, -, -⟩ := filter_conserves u hs
  rw [hrejected] at hresult
  exact ⟨hs, hresult, hleft⟩

end Stylesheet

end StylePrune
