import StylePrune.Proofs.Conservation
import StylePrune.Proofs.Verdict

/-!
# Pruning several times

A stylesheet may be pruned again and again, each time with given names or with those that a content
uses of what is left. Rules and groups go on the way, and later contents find fewer names to look
for. Still the steps do not get in each other's way: every step decides on a selector that is left
as it would have decided on it at the start, and what is left in the end depends only on which steps
there were.

* **`prune_prune`** — pruning twice is pruning once with what is kept both times.
* **`Step`**, **`run`** — one step, and several one after the other.
* **`run_of_nodes`** — a run prunes the sheet it starts with to what all of its steps keep.
* **`run_eq_filter`** — a run is a single pass, whatever the order of its steps.
-/

namespace StylePrune

/-! ## Names that several usages have in common -/

namespace Usage

/-- The names in use for both of two usages. -/
def common (u v : Usage) : Usage where
  classes := u.classes.filter v.classes.contains
  ids := u.ids.filter v.ids.contains
  tags := u.tags.filter v.tags.contains
  attributes := u.attributes.filter v.attributes.contains

theorem allows_common {u v : Usage} {p : Part} :
    (u.common v).allows p = true ↔ u.allows p = true ∧ v.allows p = true := by
  unfold allows
  cases hkind : p.kind <;> simp [namesOf?, common]

/-- What both of two usages keep is what their common names keep. -/
theorem keeps_common {u v : Usage} {selector : Selector} :
    (u.common v).keeps selector = true ↔ u.keeps selector = true ∧ v.keeps selector = true := by
  simp only [keeps, List.all_eq_true, allows_common]
  exact forall₂_and

/-- What several usages keep is what their common names keep. Induction on the usages, for every
first one. -/
theorem keeps_foldl_common {us : List Usage} {u : Usage} {selector : Selector} :
    (us.foldl common u).keeps selector = true ↔ ∀ v ∈ u :: us, v.keeps selector = true := by
  induction us generalizing u with
  | nil => simp
  | cons v us ih =>
    rw [List.foldl_cons, ih]
    simp only [List.forall_mem_cons, keeps_common, and_assoc]

end Usage

namespace Stylesheet

variable {keeps keeps' : Selector → Bool} {s : Stylesheet}

/-! ## Pruning twice -/

/-- Pruning only asks about the selectors of the sheet. -/
theorem prune_congr (h : ∀ x ∈ selectors s, keeps x = keeps' x) :
    prune keeps s = prune keeps' s := by
  induction s with
  | done => rfl
  | rule leading head block next ih =>
    rw [selectors, Sheet.heads, List.flatten_cons, List.forall_mem_append] at h
    rw [prune, prune, List.filter_congr h.1, ih h.2]
  | atRule leading keyword prelude block next ih => rw [prune, prune, ih h]
  | group leading keyword prelude hidden body next ihb ih =>
    rw [selectors, Sheet.heads, List.flatten_append, List.forall_mem_append] at h
    rw [prune, prune, ihb h.1, ih h.2]
  | comment leading t next ih => rw [prune, prune, ih h]
  | unknown value next ih => rw [prune, prune, ih h]

theorem rejected_congr (h : ∀ x ∈ selectors s, keeps x = keeps' x) :
    rejected keeps s = rejected keeps' s := by
  rw [rejected_eq, rejected_eq]
  apply List.filter_congr
  intro x hx
  rw [h x ((outer_inner_perm s).mem_iff.1 hx)]

/-- Pruning brings nothing into a sheet. -/
theorem hasContent_of_prune (h : (prune keeps s).hasContent = true) : s.hasContent = true := by
  induction s with
  | done => cases h
  | comment leading t next ih => exact ih h
  | _ => rfl

theorem firstUnknown?_prune_eq_none (hs : s.firstUnknown? = none) :
    (prune keeps s).firstUnknown? = none := by
  induction s with
  | done => rfl
  | rule leading head block next ih =>
    rw [prune]
    split
    · exact ih hs
    · exact ih hs
  | atRule leading keyword prelude block next ih => exact ih hs
  | group leading keyword prelude hidden body next ihb ih =>
    obtain ⟨hbody, hnext⟩ := firstUnknown?_group_eq_none hs
    rw [prune]
    split
    · simp only [Sheet.firstUnknown?, ihb hbody, ih hnext]
    · exact ih hnext
  | comment leading t next ih => exact ih hs
  | unknown value next => cases hs

/-- Pruning twice is pruning once with what is kept both times. Induction on the sheet; a group that
goes the first time would have gone at once, since its body has even less in it the second time. -/
theorem prune_prune (s : Stylesheet) :
    prune keeps' (prune keeps s) = prune (fun x => keeps' x && keeps x) s := by
  induction s with
  | done => rfl
  | rule leading head block next ih =>
    have hhead := List.filter_filter (p := keeps') (q := keeps) (l := head)
    rw [prune.eq_def keeps, prune.eq_def fun x => keeps' x && keeps x]
    simp only [← hhead, ← ih]
    cases hkept : head.filter keeps with
    | nil => rfl
    | cons x kept => rfl
  | atRule leading keyword prelude block next ih => rw [prune, prune, prune, ih]
  | group leading keyword prelude hidden body next ihb ih =>
    rw [prune, prune, ← ihb, ← ih]
    split
    · rw [prune]
    · rename_i hgone
      rw [if_neg fun h => hgone (hasContent_of_prune h)]
  | comment leading t next ih => rw [prune, prune, prune, ih]
  | unknown value next ih => rw [prune, prune, prune, ih]

/-- Where everything that is left is kept, nothing is rejected. -/
theorem rejected_prune (h : ∀ x, keeps x = true → keeps' x = true) :
    rejected keeps' (prune keeps s) = [] := by
  rw [rejected_eq, List.filter_eq_nil_iff]
  intro x hx
  rw [(outer_inner_perm _).mem_iff, selectors_prune, List.mem_filter] at hx
  rw [h x hx.2]
  decide

/-! ## Steps -/

/-- One time of pruning: with given names, or with those that a content uses of the sheet. -/
inductive Step where
  | usage (u : Usage)
  | content (c : Text)

namespace Step

/-- The names that a step takes to be in use. -/
def usageOn : Step → Stylesheet → Usage
  | .usage u, _ => u
  | .content c, s => Usage.ofContent s c

def apply (step : Step) (s : Stylesheet) : Pruned := filter (step.usageOn s) s

/-- What a step keeps, apart from the sheet it is applied to. -/
def passes : Step → Selector → Bool
  | .usage u => u.keeps
  | .content c => (Corpus.ofContent c).keeps

variable {step : Step}

/-- On the selectors of a sheet, a step decides without the sheet. -/
theorem keeps_usageOn : ∀ x ∈ selectors s, (step.usageOn s).keeps x = step.passes x := by
  intro x hx
  cases step with
  | usage u => rfl
  | content c => exact Usage.keeps_ofContent hx

/-- A step succeeds and prunes the sheet. -/
theorem apply_of_nodes (hs : s.firstUnknown? = none) :
    step.apply s = ⟨.ok (rejected step.passes s), prune step.passes s⟩ := by
  rw [apply, filter_of_nodes _ hs, rejected_congr keeps_usageOn, prune_congr keeps_usageOn]

/-- A step leaves a sheet alone when it keeps all that was kept before. -/
theorem apply_prune (hs : s.firstUnknown? = none) (h : ∀ x, keeps x = true → step.passes x = true) :
    step.apply (prune keeps s) = ⟨.ok [], prune keeps s⟩ := by
  have hboth : (fun x => step.passes x && keeps x) = keeps := by
    funext x
    cases hx : keeps x with
    | false => simp
    | true => simp [h x hx]
  rw [apply_of_nodes (firstUnknown?_prune_eq_none hs), rejected_prune h, prune_prune, hboth]

end Step

/-- Applies steps one after the other, until one does not succeed, and tells all that is rejected.
-/
def run : List Step → Stylesheet → Pruned
  | [], s => ⟨.ok [], s⟩
  | step :: steps, s =>
    match (step.apply s).result with
    | .error value => ⟨.error value, (step.apply s).sheet⟩
    | .ok rejected =>
      let rest := run steps (step.apply s).sheet
      ⟨rest.result.map (rejected ++ ·), rest.sheet⟩

/-- A run succeeds and prunes the sheet it starts with to what all of its steps keep. Induction on
the steps behind the first one: a run without steps prunes nothing, not even an empty group. -/
theorem run_of_nodes (step : Step) (steps : List Step) (hs : s.firstUnknown? = none) :
    ∃ rejected, run (step :: steps) s =
      ⟨.ok rejected, prune (fun x => (step :: steps).all (·.passes x)) s⟩ := by
  induction steps generalizing step s with
  | nil =>
    refine ⟨rejected step.passes s, ?_⟩
    simp [run, Step.apply_of_nodes hs, Except.map]
  | cons next steps ih =>
    have hpruned : (prune step.passes s).firstUnknown? = none := firstUnknown?_prune_eq_none hs
    obtain ⟨behind, hbehind⟩ := ih next hpruned
    refine ⟨rejected step.passes s ++ behind, ?_⟩
    rw [run, Step.apply_of_nodes hs]
    simp only [hbehind, prune_prune, Except.map]
    congr 2
    funext x
    simp only [List.all_cons]
    exact Bool.and_comm ..

/-- What all steps keep depends only on which steps there are. -/
theorem all_passes_congr {steps steps' : List Step} (h : ∀ step, step ∈ steps' ↔ step ∈ steps)
    (x : Selector) : steps'.all (·.passes x) = steps.all (·.passes x) := by
  rw [Bool.eq_iff_iff, List.all_eq_true, List.all_eq_true]
  exact forall_congr' fun step => by rw [h]

/-- A run brings no selector into a sheet. -/
theorem mem_selectors_of_run {steps : List Step} (hs : s.firstUnknown? = none) {x : Selector}
    (hx : x ∈ selectors (run steps s).sheet) : x ∈ selectors s := by
  cases steps with
  | nil => exact hx
  | cons step steps =>
    obtain ⟨rejected, hrun⟩ := run_of_nodes step steps hs
    rw [hrun, selectors_prune] at hx
    exact List.mem_of_mem_filter hx

/-- A run of steps on a sheet of rules, at-rules, groups and comments succeeds and is a single pass
over that sheet, with the names that keep what every step keeps by the names it finds in the sheet
at the start. On what is left when its turn comes, a step decides as it does at the start. The same
steps in another order, or repeated, leave the same sheet, and a step that was done before rejects
nothing more and changes nothing. -/
theorem run_eq_filter {steps : List Step} (hs : s.firstUnknown? = none) (hne : steps ≠ []) :
    ∃ u : Usage,
      (∀ x, u.keeps x = true ↔ ∀ step ∈ steps, (step.usageOn s).keeps x = true) ∧
      (∀ before step after, steps = before ++ step :: after →
        ∀ x ∈ selectors (run before s).sheet,
          (step.usageOn (run before s).sheet).keeps x = (step.usageOn s).keeps x) ∧
      (∀ steps', (∀ step, step ∈ steps' ↔ step ∈ steps) →
        ∃ rejected, run steps' s = ⟨.ok rejected, (filter u s).sheet⟩) ∧
      ∀ step ∈ steps, step.apply (filter u s).sheet = ⟨.ok [], (filter u s).sheet⟩ := by
  obtain ⟨first, others, rfl⟩ := List.exists_cons_of_ne_nil hne
  let u := (others.map fun step => step.usageOn s).foldl Usage.common (first.usageOn s)
  have hkeeps : ∀ x, u.keeps x = true ↔
      ∀ step ∈ first :: others, (step.usageOn s).keeps x = true := by
    intro x
    rw [Usage.keeps_foldl_common, List.forall_mem_cons, List.forall_mem_cons, List.forall_mem_map]
  -- a single pass with the common names prunes to what all steps keep
  have hsheet : (filter u s).sheet = prune (fun x => (first :: others).all (·.passes x)) s := by
    rw [filter_of_nodes u hs]
    apply prune_congr
    intro x hx
    rw [Bool.eq_iff_iff, hkeeps, List.all_eq_true]
    exact forall₂_congr fun step _ => by rw [Step.keeps_usageOn x hx]
  refine ⟨u, hkeeps, ?_, ?_, ?_⟩
  · intro before step after _ x hx
    rw [Step.keeps_usageOn x hx, Step.keeps_usageOn x (mem_selectors_of_run hs hx)]
  · intro steps' hsame
    obtain ⟨step, steps', rfl⟩ := List.exists_cons_of_ne_nil
      (List.ne_nil_of_mem ((hsame first).2 List.mem_cons_self))
    obtain ⟨rejected, hrun⟩ := run_of_nodes step steps' hs
    refine ⟨rejected, ?_⟩
    rw [hrun, hsheet, funext (all_passes_congr hsame)]
  · intro step hstep
    rw [hsheet]
    apply Step.apply_prune hs
    intro x hx
    exact List.all_eq_true.1 hx step hstep

/-- A content that takes away a rule and a selector, before and after a usage that keeps them: either
way the same group is left. -/
theorem run_eq_filter_orders :
    let tag (name : Char) : Selector := ⟨[⟨.tag, [name], [name]⟩], [], []⟩
    let body : Stylesheet := .rule [] [tag 'a', tag 'b'] ['{', '}'] (.done [])
    let s : Stylesheet :=
      .group [] ['@', 'm'] [] none body (.rule [] [tag 'a'] ['{', '}'] (.done []))
    let found : Step := .content ['b', 'c']
    let given : Step := .usage ⟨[], [], [['a'], ['b']], []⟩
    let left : Stylesheet :=
      .group [] ['@', 'm'] [] none (.rule [] [tag 'b'] ['{', '}'] (.done [])) (.done [])
    s.firstUnknown? = none ∧ [found, given] ≠ [] ∧ (run [found, given] s).sheet = left ∧
      (run [given, found, given] s).sheet = left ∧ found.apply left = ⟨.ok [], left⟩ := by
  intro tag body s found given left
  have hs : s.firstUnknown? = none := rfl
  have hne : [found, given] ≠ [] := List.cons_ne_nil _ _
  obtain ⟨u, -, -, hruns, hagain⟩ := run_eq_filter hs hne
  obtain ⟨rejected, hrun⟩ := hruns [found, given] fun _ => Iff.rfl
  have hleft : (run [found, given] s).sheet = left := by decide +kernel
  rw [hrun] at hleft
  rw [hleft] at hruns hrun hagain
  have hsame : ∀ step, step ∈ [given, found, given] ↔ step ∈ [found, given] := by
    intro step
    simp only [List.mem_cons, List.not_mem_nil, or_false]
    tauto
  obtain ⟨rejected', hrun'⟩ := hruns _ hsame
  exact ⟨hs, hne, congrArg Pruned.sheet hrun, congrArg Pruned.sheet hrun',
    hagain found List.mem_cons_self⟩

end Stylesheet

end StylePrune
