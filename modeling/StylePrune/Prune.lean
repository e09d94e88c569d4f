import StylePrune.Stylesheet.Basic
import StylePrune.Usage

/-!
# Pruning

Pruning takes from every rule the selectors that are not kept. A rule left without selectors goes,
and so does a group left without anything but comments. All else stays, in its order.

`prune` works on rules and groups alike; `pruneRules` and `pruneGroups` are its two halves, the
rules outside all groups and the groups. The rejected selectors are told in that order too
(`pruneGroups_pruneRules`, `rejected`).

A sheet built by hand may hold something that is no node. Outside all groups it is passed over;
inside a group pruning stops there, and `haltedGroups` is the sheet as it then is.
-/

namespace StylePrune.Stylesheet

def pruneRules (keeps : Selector → Bool) : Stylesheet → Stylesheet
  | .done trailing => .done trailing
  | .rule leading head block next =>
    match head.filter keeps with
    | [] => pruneRules keeps next
    | kept => .rule leading kept block (pruneRules keeps next)
  | .atRule leading keyword prelude block next =>
    .atRule leading keyword prelude block (pruneRules keeps next)
  | .group leading keyword prelude hidden body next =>
    .group leading keyword prelude hidden body (pruneRules keeps next)
  | .comment leading t next => .comment leading t (pruneRules keeps next)
  | .unknown value next => .unknown value (pruneRules keeps next)

/-- Prunes all rules and all groups. -/
def prune (keeps : Selector → Bool) : Stylesheet → Stylesheet
  | .done trailing => .done trailing
  | .rule leading head block next =>
    match head.filter keeps with
    | [] => prune keeps next
    | kept => .rule leading kept block (prune keeps next)
  | .atRule leading keyword prelude block next =>
    .atRule leading keyword prelude block (prune keeps next)
  | .group leading keyword prelude hidden body next =>
    if (prune keeps body).hasContent then
      .group leading keyword prelude hidden (prune keeps body) (prune keeps next)
    else prune keeps next
  | .comment leading t next => .comment leading t (prune keeps next)
  | .unknown value next => .unknown value (prune keeps next)

/-- Prunes the groups, and leaves the rules outside them alone. -/
def pruneGroups (keeps : Selector → Bool) : Stylesheet → Stylesheet
  | .done trailing => .done trailing
  | .rule leading head block next => .rule leading head block (pruneGroups keeps next)
  | .atRule leading keyword prelude block next =>
    .atRule leading keyword prelude block (pruneGroups keeps next)
  | .group leading keyword prelude hidden body next =>
    if (prune keeps body).hasContent then
      .group leading keyword prelude hidden (prune keeps body) (pruneGroups keeps next)
    else pruneGroups keeps next
  | .comment leading t next => .comment leading t (pruneGroups keeps next)
  | .unknown value next => .unknown value (pruneGroups keeps next)

/-- The selectors that are not kept, of the rules outside all groups. -/
def rejectedRules (keeps : Selector → Bool) : Stylesheet → List Selector
  | .done _ => []
  | .rule _ head _ next => head.filter (fun s => !keeps s) ++ rejectedRules keeps next
  | .atRule _ _ _ _ next => rejectedRules keeps next
  | .group _ _ _ _ _ next => rejectedRules keeps next
  | .comment _ _ next => rejectedRules keeps next
  | .unknown _ next => rejectedRules keeps next

/-- The selectors that are not kept, of the rules inside groups, from front to back. -/
def rejectedGroups (keeps : Selector → Bool) : Stylesheet → List Selector
  | .done _ => []
  | .rule _ _ _ next => rejectedGroups keeps next
  | .atRule _ _ _ _ next => rejectedGroups keeps next
  | .group _ _ _ _ body next =>
    (selectors body).filter (fun s => !keeps s) ++ rejectedGroups keeps next
  | .comment _ _ next => rejectedGroups keeps next
  | .unknown _ next => rejectedGroups keeps next

/-- All selectors that are not kept: those outside all groups first, then those inside. -/
def rejected (keeps : Selector → Bool) (s : Stylesheet) : List Selector :=
  rejectedRules keeps s ++ rejectedGroups keeps s

/-- The body of a group whose pruning stopped: the groups and rules before the place where it
stopped are pruned, but none of them is gone yet. -/
def haltedBody (keeps : Selector → Bool) : Stylesheet → Stylesheet
  | .done trailing => .done trailing
  | .rule leading head block next =>
    .rule leading (head.filter keeps) block (haltedBody keeps next)
  | .atRule leading keyword prelude block next =>
    .atRule leading keyword prelude block (haltedBody keeps next)
  | .group leading keyword prelude hidden body next =>
    if body.firstUnknown?.isSome then
      .group leading keyword prelude hidden (haltedBody keeps body) next
    else .group leading keyword prelude hidden (prune keeps body) (haltedBody keeps next)
  | .comment leading t next => .comment leading t (haltedBody keeps next)
  | .unknown value next => .unknown value next

/-- A stylesheet on which `pruneGroups` stopped inside a group. -/
def haltedGroups (keeps : Selector → Bool) : Stylesheet → Stylesheet
  | .done trailing => .done trailing
  | .rule leading head block next => .rule leading head block (haltedGroups keeps next)
  | .atRule leading keyword prelude block next =>
    .atRule leading keyword prelude block (haltedGroups keeps next)
  | .group leading keyword prelude hidden body next =>
    if body.firstUnknown?.isSome then
      .group leading keyword prelude hidden (haltedBody keeps body) next
    else .group leading keyword prelude hidden (prune keeps body) (haltedGroups keeps next)
  | .comment leading t next => .comment leading t (haltedGroups keeps next)
  | .unknown value next => .unknown value (haltedGroups keeps next)

/-- What a step of pruning gives: the rejected selectors, or the thing inside a group that is no
node; and the stylesheet as the step leaves it. -/
structure Pruned where
  result : Except Text (List Selector)
  sheet : Stylesheet

/-- Prunes the rules outside all groups, and tells the rejected selectors. -/
def filterRules (u : Usage) (s : Stylesheet) : Pruned :=
  ⟨.ok (rejectedRules u.keeps s), pruneRules u.keeps s⟩

/-- Prunes the groups, and tells the rejected selectors. -/
def filterGroups (u : Usage) (s : Stylesheet) : Pruned :=
  match s.firstNestedUnknown? with
  | some value => ⟨.error value, haltedGroups u.keeps s⟩
  | none => ⟨.ok (rejectedGroups u.keeps s), pruneGroups u.keeps s⟩

/-- Prunes the rules outside all groups, then the groups, and tells the rejected selectors. -/
def filter (u : Usage) (s : Stylesheet) : Pruned :=
  match s.firstNestedUnknown? with
  | some value => ⟨.error value, haltedGroups u.keeps (pruneRules u.keeps s)⟩
  | none => ⟨.ok (rejected u.keeps s), prune u.keeps s⟩

/-- Pruning is pruning the rules outside all groups and then the groups. -/
theorem pruneGroups_pruneRules (keeps : Selector → Bool) (s : Stylesheet) :
    pruneGroups keeps (pruneRules keeps s) = prune keeps s := by
  induction s with
  | done => rfl
  | rule leading head block next ih =>
    simp only [pruneRules, prune]
    split
    · exact ih
    · rw [pruneGroups, ih]
  | atRule leading keyword prelude block next ih => rw [pruneRules, pruneGroups, prune, ih]
  | group leading keyword prelude hidden body next _ ih =>
    simp only [pruneRules, pruneGroups, prune, ih]
  | comment leading t next ih => rw [pruneRules, pruneGroups, prune, ih]
  | unknown value next ih => rw [pruneRules, pruneGroups, prune, ih]

end StylePrune.Stylesheet
