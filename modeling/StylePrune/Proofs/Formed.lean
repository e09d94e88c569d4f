import StylePrune.Proofs.Statements
import StylePrune.Proofs.Survival

/-!
# Sheets whose pieces fit together

A sheet that was read is *formed*: its pieces are such as the reader cuts. Being formed says nothing
about two neighbours, so it outlives pruning, whatever nodes and heads go.

What does depend on neighbours is one thing alone. In the body of a group no marker may stand right
behind a closing brace, since the block around that body would be refused. A sheet is *apart* when
none does, and then its text can stand in a block (`content_text_iff`). Pruning keeps a sheet apart
as long as the heads that stay begin as they did (`Apart.prune`).

* **`Sheet.Formed`** — pieces as the reader cuts them, with heads of some kind.
* **`Sheet.Apart`**, **`Sheet.GroupsApart`** — no marker behind a closing brace inside a group.
* **`formed_of_parse`** — what reading gives.
-/

namespace StylePrune

open Mode

/-! ## Pieces of a block -/

/-- A gap is read between two tokens, and a marker in it as a chunk. -/
theorem Gap.flow {g : Text} (hg : Gap g) {m : Mode} (hm : Mode.Le .fresh m) (d : Nat) :
    ∃ n, flow m d g = some (n, d) ∧ Mode.Le .fresh n := by
  have hword : Mode.Le .fresh .word := .word (.inl rfl) (by decide)
  induction hg generalizing m with
  | nil => exact ⟨m, rfl, hm⟩
  | @blank c s hc _ ih =>
    obtain ⟨n, hn, hle⟩ := ih (.refl .fresh)
    have hbegin : begin c = some .fresh := by simp [begin, hc]
    have hat : c ≠ '@' := by
      rintro rfl
      cases hc
    have hstep : m.step c = some .fresh := by
      cases hm with
      | refl => exact hbegin
      | word => exact (goOn_eq_begin hat).trans hbegin
    exact ⟨n, by rw [flow_cons, flowStep_of_step hstep, Option.bind_some, hn], hle⟩
  | semicolon _ ih =>
    obtain ⟨n, hn, hle⟩ := ih (.refl .fresh)
    exact ⟨n, by rw [flow_cons, flowStep_semicolon (hm.rests rfl), Option.bind_some, hn], hle⟩
  | openMarker _ ih =>
    obtain ⟨n, hn, hle⟩ := ih hword
    refine ⟨n, ?_, hle⟩
    cases hm <;> exact hn
  | closeMarker _ ih =>
    obtain ⟨n, hn, hle⟩ := ih hword
    refine ⟨n, ?_, hle⟩
    cases hm <;> exact hn

/-- A keyword in front of a head makes a longer head. -/
theorem KeywordEnds.flat {keyword head : Text} (h : KeywordEnds keyword head)
    (hhead : Flat .fresh head) : Flat .fresh (keyword ++ head) := by
  obtain ⟨k, rfl, hne, hself, hends⟩ := h
  have hk : Mode.run .keyword k = some .keyword := by
    have hrun := Token.runs_keyword.run k
    rwa [hself] at hrun
  obtain ⟨c, v, w, rfl, heq, hc⟩ := Token.takeEscaped_ne_nil hself hne
  have hat : Mode.run .fresh ('@' :: c :: v) = some .keyword := (Token.run_atSign hc v).trans hk
  have hstep : ∀ d ∈ head.head?, step .keyword d = step .fresh d :=
    fun d hd => Token.runs_keyword.other d (hends d hd).1 (hends d hd).2
  exact .prepend hat ((flat_iff_of_step rfl rfl hstep).2 hhead)

section

variable {leading head : Text} (hlead : Gap leading) (hhead : Flat .fresh head) (d : Nat)
include hlead hhead

/-- What leads a head and the head itself are read to where a brace or a semicolon may stand. -/
theorem flow_head : ∃ n, flow .fresh d (leading ++ head) = some (n, d) ∧ n.rests = true := by
  obtain ⟨m, hm, hle⟩ := hlead.flow (.refl .fresh) d
  obtain ⟨n, hn, hrest⟩ := hhead.of_le hle
  exact ⟨n, by rw [flow_append_of_flow hm, flow_of_run hn], hrest⟩

theorem flow_headOpen : flow .fresh d (leading ++ head ++ ['{']) = some (.fresh, d + 1) := by
  obtain ⟨n, hn, hrest⟩ := flow_head hlead hhead d
  rw [flow_append_of_flow hn, flow_cons, flowStep_open hrest]
  rfl

/-- A head and a block are read up to the brace that closes the block. -/
theorem flows_headBody {body : Text} (hbody : Content body) :
    Flows .fresh d (d + 1) (leading ++ head ++ '{' :: body) := by
  obtain ⟨n, hn, hrest⟩ := hbody
  have hadd := flow_add hn (d + 1)
  rw [Nat.zero_add] at hadd
  refine ⟨n, ?_, hrest⟩
  have heq : leading ++ head ++ '{' :: body = leading ++ head ++ ['{'] ++ body := by simp
  rw [heq, flow_append_of_flow (flow_headOpen hlead hhead d), hadd]

theorem flow_headSemicolon : flow .fresh d (leading ++ head ++ [';']) = some (.fresh, d) := by
  obtain ⟨n, hn, hrest⟩ := flow_head hlead hhead d
  rw [flow_append_of_flow hn, flow_cons, flowStep_semicolon hrest]
  rfl

end

theorem flow_comment {leading body : Text} (hlead : Gap leading)
    (hbody : closeComment body = some (body, [])) (d : Nat) :
    flow .fresh d (leading ++ '/' :: '*' :: body) = some (.fresh, d) := by
  obtain ⟨m, hm, hle⟩ := hlead.flow (.refl .fresh) d
  have hrun : m.run ('/' :: '*' :: body) = some .fresh := by
    cases hle <;> exact (closeComment_run hbody).1
  rw [flow_append_of_flow hm, flow_of_run hrun]

/-! ## Formed sheets -/

namespace Sheet

variable {σ τ : Type}

/-- The pieces of a sheet are such as the reader cuts, and its heads are as `p` says. The block of a
conditional at-rule stands as a text only where its statements cannot be read. -/
inductive Formed (p : σ → Prop) : Sheet σ → Prop where
  | done {trailing : Text} (htrailing : Gap trailing) : Formed p (.done trailing)
  | rule {leading body : Text} {head : σ} {next : Sheet σ} (hlead : Gap leading) (hhead : p head)
      (hbody : Content body) (hnext : Formed p next) :
      Formed p (.rule leading head (Statement.braced body) next)
  | atRule {leading keyword prelude : Text} (body : Option Text) {next : Sheet σ}
      (hlead : Gap leading) (hkeyword : KeywordEnds keyword prelude)
      (hprelude : Flat .fresh prelude) (hbody : ∀ b ∈ body, Content b)
      (hunread : AtRule.isConditional keyword = true →
        ∀ b ∈ body, ∀ found, Statement.readFrom [] b ≠ .ok found)
      (hnext : Formed p next) :
      Formed p (.atRule leading keyword prelude (body.map Statement.braced) next)
  | group {leading keyword prelude : Text} {body next : Sheet σ} (hlead : Gap leading)
      (hkeyword : KeywordEnds keyword prelude) (hprelude : Flat .fresh prelude)
      (hconditional : AtRule.isConditional keyword = true) (hbody : Formed p body)
      (hnext : Formed p next) : Formed p (.group leading keyword prelude none body next)
  | comment {leading body : Text} {next : Sheet σ} (hlead : Gap leading)
      (hbody : closeComment body = some (body, [])) (hnext : Formed p next) :
      Formed p (.comment leading ('/' :: '*' :: body) next)

variable {p : σ → Prop} {q : τ → Prop} {s : Sheet σ}

/-- A formed sheet stays formed when its heads are replaced. -/
theorem Formed.mapHeads {f : σ → τ} (h : Formed p s) (hf : ∀ a ∈ s.heads, p a → q (f a)) :
    Formed q (s.mapHeads f) := by
  induction h with
  | done htrailing => exact .done htrailing
  | rule hlead hhead hbody _ ih =>
    obtain ⟨hfirst, hrest⟩ := List.forall_mem_cons.1 hf
    exact .rule hlead (hfirst hhead) hbody (ih hrest)
  | atRule body hlead hkeyword hprelude hbody hunread _ ih =>
    exact .atRule body hlead hkeyword hprelude hbody hunread (ih hf)
  | group hlead hkeyword hprelude hconditional _ _ ihb ih =>
    obtain ⟨hin, hbehind⟩ := List.forall_mem_append.1 hf
    exact .group hlead hkeyword hprelude hconditional (ihb hin) (ih hbehind)
  | comment hlead hbody _ ih => exact .comment hlead hbody (ih hf)

/-- Pruning leaves a sheet formed: it only takes nodes and selectors out. -/
theorem Formed.prune {p q : List Selector → Prop} {keeps : Selector → Bool} {s : Stylesheet}
    (h : Formed p s)
    (hq : ∀ head ∈ s.heads, p head → head.filter keeps ≠ [] → q (head.filter keeps)) :
    Formed q (Stylesheet.prune keeps s) := by
  induction h with
  | done htrailing => exact .done htrailing
  | rule hlead hhead hbody _ ih =>
    obtain ⟨hfirst, hrest⟩ := List.forall_mem_cons.1 hq
    rw [Stylesheet.prune]
    split
    · exact ih hrest
    · rename_i hne
      exact .rule hlead (hfirst hhead hne) hbody (ih hrest)
  | atRule body hlead hkeyword hprelude hbody hunread _ ih =>
    exact .atRule body hlead hkeyword hprelude hbody hunread (ih hq)
  | group hlead hkeyword hprelude hconditional _ _ ihb ih =>
    obtain ⟨hin, hbehind⟩ := List.forall_mem_append.1 hq
    rw [Stylesheet.prune]
    split
    · exact .group hlead hkeyword hprelude hconditional (ihb hin) (ih hbehind)
    · exact ih hbehind
  | comment hlead hbody _ ih => exact .comment hlead hbody (ih hq)

/-! ## Markers inside groups -/

/-- No marker stands right behind a closing brace, neither in the sheet nor in the body of a group;
nor at the start of the sheet, if it stands behind a closing brace itself. -/
def Apart (closed : Bool) (s : Outline) : Prop :=
  (closed = true → ¬ MarkerAhead (text id s)) ∧
    match s with
    | .done _ => True
    | .rule _ _ _ next => Apart true next
    | .atRule _ _ _ block next => Apart block.isSome next
    | .group _ _ _ _ body next => Apart false body ∧ Apart true next
    | .comment _ _ next => Apart false next
    | .unknown _ next => Apart closed next

/-- No marker stands right behind a closing brace in the body of a group. Outside of all groups a
marker may. -/
def GroupsApart : Outline → Prop
  | .done _ => True
  | .rule _ _ _ next => GroupsApart next
  | .atRule _ _ _ _ next => GroupsApart next
  | .group _ _ _ _ body next => Apart false body ∧ GroupsApart next
  | .comment _ _ next => GroupsApart next
  | .unknown _ next => GroupsApart next

theorem Apart.start {closed : Bool} {o : Outline} (h : Apart closed o) :
    closed = true → ¬ MarkerAhead (text id o) := by
  cases o <;> exact h.1

/-- Where a sheet may stand behind a brace, it may stand anywhere. -/
theorem apart_iff {closed : Bool} {o : Outline} (ho : o.firstUnknown? = none) :
    Apart closed o ↔ (closed = true → ¬ MarkerAhead (text id o)) ∧ Apart false o := by
  cases o with
  | unknown => cases ho
  | _ => simp [Apart]

theorem Apart.groupsApart {closed : Bool} {o : Outline} (h : Apart closed o) : o.GroupsApart := by
  induction o generalizing closed with
  | done => trivial
  | rule _ _ _ _ ih => exact ih h.2
  | atRule _ _ _ _ _ ih => exact ih h.2
  | group _ _ _ _ _ _ _ ih => exact ⟨h.2.1, ih h.2.2⟩
  | comment _ _ _ ih => exact ih h.2
  | unknown _ _ ih => exact ih h.2

/-- A formed sheet holds nothing but nodes. -/
theorem Formed.firstUnknown? (h : Formed p s) : s.firstUnknown? = none := by
  induction h with
  | done => rfl
  | rule _ _ _ _ ih => exact ih
  | atRule _ _ _ _ _ _ _ ih => exact ih
  | group _ _ _ _ _ _ ihb ih => simp only [Sheet.firstUnknown?, ihb, ih]
  | comment _ _ _ ih => exact ih

/-- The text of a sheet can stand in a block when the sheet is apart, and is interrupted when it is
not. -/
def Settled (o : Outline) : Prop :=
  (Apart false o → Content (text id o)) ∧ (¬ Apart false o → Interrupted 0 (text id o))

/-- Behind a closing brace a text is interrupted by a marker, or it goes on as anywhere else. -/
theorem Settled.closed {p : Text → Prop} {o : Outline} (ho : Settled o) (h : Formed p o) :
    (Apart true o → Flows .closed 0 0 (text id o)) ∧
      (¬ Apart true o → MarkerAhead (text id o) ∨ Interrupted 0 (text id o)) := by
  rw [apart_iff h.firstUnknown?, flows_closed_iff]
  constructor
  · rintro ⟨hmark, hapart⟩
    exact ⟨hmark rfl, ho.1 hapart⟩
  · intro hn
    by_cases hmark : MarkerAhead (text id o)
    · exact .inl hmark
    · exact .inr (ho.2 fun hapart => hn ⟨fun _ => hmark, hapart⟩)

/-- A head and its block hand the question on to the sheet behind the closing brace. -/
theorem Settled.behind {p : Text → Prop} {leading head body : Text} {next : Outline}
    (ih : Settled next) (hnext : Formed p next) (hlead : Gap leading) (hhead : Flat .fresh head)
    (hbody : Content body) :
    (Apart true next → Content (leading ++ head ++ Statement.braced body ++ text id next)) ∧
      (¬ Apart true next →
        Interrupted 0 (leading ++ head ++ Statement.braced body ++ text id next)) := by
  obtain ⟨hflows, hinter⟩ := ih.closed hnext
  have hbefore := flows_headBody hlead hhead 0 hbody
  have heq : leading ++ head ++ Statement.braced body ++ text id next =
      leading ++ head ++ '{' :: body ++ '}' :: text id next := by
    simp [Statement.braced]
  rw [heq]
  constructor
  · intro hapart
    exact (flows_brace hbefore _).2 (hflows hapart)
  · intro hn
    exact .of_closed hbefore (hinter hn)

/-- So does what ends between two tokens, outside of all braces. -/
theorem Settled.after {a : Text} {next : Outline} (ih : Settled next)
    (ha : flow .fresh 0 a = some (.fresh, 0)) :
    (Apart false next → Content (a ++ text id next)) ∧
      (¬ Apart false next → Interrupted 0 (a ++ text id next)) := by
  constructor
  · intro hapart
    exact (flows_append ha _).2 (ih.1 hapart)
  · intro hn
    exact (ih.2 hn).append_left ha

/-- The block of a group is asked first, and then the sheet behind it. -/
theorem Settled.group {p : Text → Prop} {leading head : Text} {body next : Outline}
    (hbody : Settled body) (ih : Settled next) (hnext : Formed p next) (hlead : Gap leading)
    (hhead : Flat .fresh head) :
    (Apart false body ∧ Apart true next →
        Content (leading ++ head ++ Statement.braced (text id body) ++ text id next)) ∧
      (¬ (Apart false body ∧ Apart true next) →
        Interrupted 0 (leading ++ head ++ Statement.braced (text id body) ++ text id next)) := by
  by_cases hin : Apart false body
  · have hnext' := ih.behind hnext hlead hhead (hbody.1 hin)
    simpa only [hin, true_and] using hnext'
  · -- a body that is interrupted interrupts the text around it, wherever its braces end
    refine ⟨fun hapart => absurd hapart.1 hin, fun _ => ?_⟩
    have hopen := flow_headOpen hlead hhead 0
    have hcut : leading ++ head ++ Statement.braced (text id body) ++ text id next =
        leading ++ head ++ ['{'] ++ (text id body ++ '}' :: text id next) := by
      simp [Statement.braced]
    rw [hcut]
    exact ((hbody.2 hin).inside.append_right _).append_left hopen

/-- Every formed sheet is settled. Induction on the sheet; a rule or a block hands the question on
to the text behind its closing brace. -/
theorem settled {p : Text → Prop} {o : Outline} (h : Formed p o)
    (hp : ∀ head, p head → Flat .fresh head) : Settled o := by
  induction h with
  | done htrailing =>
    -- nothing but a gap: its marks are skipped, wherever it stands
    refine ⟨fun _ => ?_, fun hn => absurd ⟨by simp, trivial⟩ hn⟩
    obtain ⟨m, hm, hle⟩ := htrailing.flow (.refl .fresh) 0
    exact ⟨m, hm, hle.rests rfl⟩
  | rule hlead hhead hbody hnext ih =>
    have hnext' := ih.behind hnext hlead (hp _ hhead) hbody
    simp only [Settled, Apart, Bool.false_eq_true, false_implies, true_and]
    exact hnext'
  | @atRule leading keyword prelude body next hlead hkeyword hprelude hbody hunread hnext ih =>
    simp only [Settled, Apart, Bool.false_eq_true, false_implies, true_and]
    cases body with
    | none =>
      have hnext' := ih.after (flow_headSemicolon hlead (hkeyword.flat hprelude) 0)
      have heq : text id (.atRule leading keyword prelude none next) =
          leading ++ (keyword ++ prelude) ++ [';'] ++ text id next := by
        simp [Sheet.text]
      rw [Option.map_none, heq]
      exact hnext'
    | some body =>
      have hnext' := ih.behind hnext hlead (hkeyword.flat hprelude) (hbody body rfl)
      have heq : text id (.atRule leading keyword prelude (some (Statement.braced body)) next) =
          leading ++ (keyword ++ prelude) ++ Statement.braced body ++ text id next := by
        simp [Sheet.text]
      rw [Option.map_some, heq]
      exact hnext'
  | @group leading keyword prelude body next hlead hkeyword hprelude hconditional hbody hnext ihb
      ih =>
    simp only [Settled, Apart, Bool.false_eq_true, false_implies, true_and]
    have heq : text id (.group leading keyword prelude none body next) =
        leading ++ (keyword ++ prelude) ++ Statement.braced (text id body) ++ text id next := by
      simp [Sheet.text, Statement.braced]
    rw [heq]
    exact ihb.group ih hnext hlead (hkeyword.flat hprelude)
  | @comment leading body next hlead hbody hnext ih =>
    simp only [Settled, Apart, Bool.false_eq_true, false_implies, true_and]
    exact ih.after (flow_comment hlead hbody 0)

/-- The text of a formed sheet can stand in a block exactly when the sheet is apart. -/
theorem content_text_iff {p : Text → Prop} {o : Outline} (h : Formed p o)
    (hp : ∀ head, p head → Flat .fresh head) : Content (text id o) ↔ Apart false o := by
  obtain ⟨hcontent, hinter⟩ := settled h hp
  refine ⟨fun hflow => ?_, hcontent⟩
  by_contra hn
  exact (hinter hn).not_flows hflow

end Sheet

/-! ## What reading gives -/

namespace Outline

/-- A head as it is read. -/
def HeadRead (head : Text) : Prop := RuleStart head ∧ Flat .fresh head

/-- Statements that were read make a formed outline, and none of its groups is interrupted. -/
theorem ofStatements_formed {sts : List Statement} {trailing : Text}
    (hsts : ∀ st ∈ sts, st.Readable ∧ Gap st.leading) (htrailing : Gap trailing) :
    (ofStatements sts trailing).Formed HeadRead ∧ (ofStatements sts trailing).GroupsApart := by
  fun_induction ofStatements sts trailing with
  | case1 trailing => exact ⟨.done htrailing, trivial⟩
  | case2 trailing leading t sts ih =>
    obtain ⟨⟨hst, hlead⟩, hsts⟩ := List.forall_mem_cons.1 hsts
    obtain ⟨hformed, hapart⟩ := ih hsts htrailing
    cases hst with
    | comment _ hbody => exact ⟨.comment hlead hbody hformed, hapart⟩
  | case3 trailing leading head body sts ih =>
    obtain ⟨⟨hst, hlead⟩, hsts⟩ := List.forall_mem_cons.1 hsts
    obtain ⟨hformed, hapart⟩ := ih hsts htrailing
    cases hst with
    | rule _ hstart hhead hbody => exact ⟨.rule hlead ⟨hstart, hhead⟩ hbody hformed, hapart⟩
  | case4 trailing leading keyword prelude sts ih =>
    obtain ⟨⟨hst, hlead⟩, hsts⟩ := List.forall_mem_cons.1 hsts
    obtain ⟨hformed, hapart⟩ := ih hsts htrailing
    cases hst with
    | atRule _ hkeyword hprelude hbody =>
      exact ⟨.atRule none hlead hkeyword hprelude hbody (by simp) hformed, hapart⟩
  | case5 trailing leading keyword prelude body sts hconditional inner innerTrailing hread ihb ih =>
    obtain ⟨⟨hst, hlead⟩, hsts⟩ := List.forall_mem_cons.1 hsts
    obtain ⟨hformed, hapart⟩ := ih hsts htrailing
    obtain ⟨hbodyText, hinner, hinnerTrailing⟩ :=
      Statement.readFrom_eq_ok_iff.1 (Statement.readAll_eq_ok_iff.1 hread)
    obtain ⟨hinFormed, -⟩ := ihb hinner hinnerTrailing
    cases hst with
    | atRule _ hkeyword hprelude hbody =>
      refine ⟨.group hlead hkeyword hprelude hconditional hinFormed hformed, ?_, hapart⟩
      -- the body was read as a block before its statements were, so nothing interrupts it
      rw [← Sheet.content_text_iff hinFormed fun _ hhead => hhead.2, ofStatements_text, ← hbodyText]
      exact hbody body rfl
  | case6 trailing leading keyword prelude body sts hconditional e hread ih =>
    obtain ⟨⟨hst, hlead⟩, hsts⟩ := List.forall_mem_cons.1 hsts
    obtain ⟨hformed, hapart⟩ := ih hsts htrailing
    -- the block is kept as a text because its statements were refused
    have hunread : ∀ b ∈ some body, ∀ found, Statement.readFrom [] b ≠ .ok found := by
      rintro b hb found hfound
      cases hb
      rw [Statement.readAll_eq_ok_iff.2 hfound] at hread
      cases hread
    cases hst with
    | atRule _ hkeyword hprelude hbody =>
      exact ⟨.atRule (some body) hlead hkeyword hprelude hbody (fun _ => hunread) hformed,
        hapart⟩
  | case7 trailing leading keyword prelude body sts hconditional ih =>
    obtain ⟨⟨hst, hlead⟩, hsts⟩ := List.forall_mem_cons.1 hsts
    obtain ⟨hformed, hapart⟩ := ih hsts htrailing
    cases hst with
    | atRule _ hkeyword hprelude hbody =>
      exact ⟨.atRule (some body) hlead hkeyword hprelude hbody
        (fun hc => absurd hc hconditional) hformed, hapart⟩

/-- An outline that was read is formed, and none of its groups is interrupted. -/
theorem formed_of_parse {source : Text} {o : Outline} (h : parse source = .ok o) :
    o.Formed HeadRead ∧ o.GroupsApart := by
  obtain ⟨sts, trailing, hread, rfl⟩ := parse_eq_ok_iff.1 h
  obtain ⟨-, hsts, htrailing⟩ :=
    Statement.readFrom_eq_ok_iff.1 (Statement.readAll_eq_ok_iff.1 hread)
  exact ofStatements_formed hsts htrailing

end Outline

end StylePrune
