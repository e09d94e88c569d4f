import StylePrune.Proofs.Derivation

/-!
# Phases

A *phase* is what has to be remembered between two tokens to tell whether the tokens read so far can
be part of a stylesheet. Each token leads from a phase to the next one, or nowhere. The sequences of
tokens that lead from between two phrases back there are those that have a derivation
(`Phase.run_between_iff`): every tree of the grammar is such a way, and every such way can be cut
into phrases.

* **`Phase.exists_filling`** — a way out of a block begins with a filling.
* **`Phase.depth_run`** — along a way the braces are balanced, but for the blocks that are open.
-/

namespace StylePrune

/-! ## Ways from phase to phase -/

/-- What the tokens read so far are in the middle of. -/
inductive Phase where
  /-- Between two phrases. -/
  | between
  | ruleHead
  | atRuleHead
  /-- In a block, with `depth` blocks open around the innermost one. -/
  | block (depth : Nat)
deriving DecidableEq, Repr

namespace Phase

/-- The phase behind a token, if the token may stand here. -/
def step : Phase → Token → Option Phase
  | .between, .comment _ | .between, .semicolon => some .between
  | .between, .openMarker | .between, .closeMarker => some .between
  | .between, .string _ | .between, .slash | .between, .chunk _ => some .ruleHead
  | .between, .atKeyword _ => some .atRuleHead
  | .between, .openBrace | .between, .closeBrace => none
  | .ruleHead, .openBrace | .atRuleHead, .openBrace => some (.block 0)
  | .atRuleHead, .semicolon => some .between
  | .block d, .openBrace => some (.block (d + 1))
  | .block 0, .closeBrace => some .between
  | .block (d + 1), .closeBrace => some (.block d)
  | .block d, .semicolon => some (.block d)
  | m, t => if t.isPlain then some m else none

def run (m : Phase) : List Lexeme → Option Phase
  | [] => some m
  | l :: ls => (m.step l.token).bind fun n => n.run ls

@[simp] theorem run_nil (m : Phase) : m.run [] = some m := rfl

theorem run_cons {m n : Phase} {l : Lexeme} (h : m.step l.token = some n) (ls : List Lexeme) :
    m.run (l :: ls) = n.run ls := by
  rw [run, h, Option.bind_some]

theorem run_cons_eq_some {m n : Phase} {l : Lexeme} {ls : List Lexeme}
    (h : m.run (l :: ls) = some n) : ∃ k, m.step l.token = some k ∧ k.run ls = some n :=
  Option.bind_eq_some_iff.1 h

theorem run_append (m : Phase) (as bs : List Lexeme) :
    m.run (as ++ bs) = (m.run as).bind fun n => n.run bs := by
  induction as generalizing m with
  | nil => rfl
  | cons l as ih =>
    cases h : m.step l.token with
    | none => simp [run, h]
    | some n => simp [run, h, ih]

theorem run_append_of_run {m n : Phase} {as : List Lexeme} (h : m.run as = some n)
    (bs : List Lexeme) : m.run (as ++ bs) = n.run bs := by
  rw [run_append, h, Option.bind_some]

/-- A further token leads to the next phase. -/
theorem run_snoc {m n k : Phase} {as : List Lexeme} {l : Lexeme} (h : m.run as = some n)
    (hstep : n.step l.token = some k) : m.run (as ++ [l]) = some k := by
  rw [run_append_of_run h, run_cons hstep, run_nil]

theorem step_stray {t : Token} (h : t.isStray = true) : step .between t = some .between := by
  cases t with
  | semicolon | openMarker | closeMarker => rfl
  | _ => cases h

theorem step_startsRule {t : Token} (h : t.startsRule = true) :
    step .between t = some .ruleHead := by
  cases t with
  | string | slash | chunk => rfl
  | _ => cases h

/-- A phase in which a head or a block goes on. -/
def isInside : Phase → Bool
  | .between => false
  | _ => true

/-- A phase in which a head goes on. -/
def isHead : Phase → Bool
  | .ruleHead | .atRuleHead => true
  | _ => false

theorem isInside_of_isHead {m : Phase} (h : m.isHead = true) : m.isInside = true := by
  cases m with
  | between | block => cases h
  | ruleHead | atRuleHead => rfl

theorem step_openBrace {m : Phase} (h : m.isHead = true) :
    m.step .openBrace = some (.block 0) := by
  cases m with
  | between | block => cases h
  | ruleHead | atRuleHead => rfl

theorem step_plain {m : Phase} {t : Token} (hm : m.isInside = true) (ht : t.isPlain = true) :
    m.step t = some m := by
  cases m with
  | between => cases hm
  | _ => cases t <;> first | rfl | cases ht

theorem step_filling {d : Nat} {t : Token} (ht : t.isFilling = true) :
    step (.block d) t = some (.block d) := by
  cases t with
  | openBrace | closeBrace | openMarker | closeMarker => cases ht
  | _ => rfl

theorem run_tail {m : Phase} (hm : m.isInside = true) {ls : List Lexeme}
    (h : ∀ l ∈ ls, l.token.isPlain = true) : m.run ls = some m := by
  induction ls with
  | nil => rfl
  | cons l ls ih =>
    obtain ⟨hl, hls⟩ := List.forall_mem_cons.1 h
    rw [run_cons (step_plain hm hl), ih hls]

/-- Behind a head a brace opens a block. -/
theorem run_headOpen {m : Phase} (hm : m.isHead = true) {ls : List Lexeme}
    (h : ∀ l ∈ ls, l.token.isPlain = true) (gap : Text) :
    m.run (ls ++ [⟨gap, .openBrace⟩]) = some (.block 0) :=
  run_snoc (run_tail (isInside_of_isHead hm) h) (step_openBrace hm)

/-- A filling leads back to where it begins. -/
theorem run_filling (d : Nat) (f : Filling) : (block d).run f.lexemes = some (.block d) := by
  induction f generalizing d with
  | done => rfl
  | token l h next ih => rw [Filling.lexemes, run_cons (step_filling h), ih]
  | block opening inner closing next ihinner ihnext =>
    have hopen : step (.block d) .openBrace = some (.block (d + 1)) := rfl
    have hclose : step (.block (d + 1)) .closeBrace = some (.block d) := rfl
    rw [Filling.lexemes, run_cons hopen, run_append_of_run (ihinner (d + 1)), run_cons hclose,
      ihnext]

theorem run_block {m : Phase} (hm : m.step .openBrace = some (.block 0)) (b : Block) :
    m.run b.lexemes = some .between := by
  rw [Block.lexemes, run_cons hm, run_append_of_run (run_filling 0 b.filling)]
  rfl

theorem run_phrase (p : Phrase) : between.run p.lexemes = some .between := by
  cases p with
  | stray l h => rw [Phrase.lexemes, run_cons (step_stray h), run_nil]
  | comment => rfl
  | rule first h tail block =>
    rw [Phrase.lexemes, run_cons (step_startsRule h),
      run_append_of_run (run_tail rfl tail.plain), run_block rfl]
  | atRule gap keyword tail block =>
    have hstep : step .between (.atKeyword keyword) = some .atRuleHead := rfl
    rw [Phrase.lexemes, run_cons hstep, run_append_of_run (run_tail rfl tail.plain), run_block rfl]
  | blockless gap keyword tail stop =>
    have hstep : step .between (.atKeyword keyword) = some .atRuleHead := rfl
    rw [Phrase.lexemes, run_cons hstep, run_append_of_run (run_tail rfl tail.plain)]
    rfl

theorem run_derivation (d : Derivation) : between.run d.lexemes = some .between := by
  induction d with
  | nil => rfl
  | cons p d ih => rw [Derivation.lexemes_cons, run_append_of_run (run_phrase p), ih]

/-! ## What leads back has a derivation -/

/-- The phase behind the brace that closes the innermost block. -/
def behindBlock : Nat → Phase
  | 0 => .between
  | d + 1 => .block d

theorem step_closeBrace (d : Nat) : step (.block d) .closeBrace = some (behindBlock d) := by
  cases d <;> rfl

/-- A token in a block is part of a filling or a brace. -/
theorem step_block_eq_some {d : Nat} {t : Token} {m : Phase} (h : step (.block d) t = some m) :
    (t.isFilling = true ∧ m = .block d) ∨ (t = .openBrace ∧ m = .block (d + 1)) ∨
      (t = .closeBrace ∧ m = behindBlock d) := by
  cases t with
  | closeBrace =>
    rw [step_closeBrace] at h
    cases h
    exact .inr (.inr ⟨rfl, rfl⟩)
  | openBrace =>
    cases h
    exact .inr (.inl ⟨rfl, rfl⟩)
  | openMarker | closeMarker => cases h
  | _ =>
    cases h
    exact .inl ⟨rfl, rfl⟩

/-- A way out of a block leads over a filling and the brace behind it. Induction on the length of
the way, which a block inside splits. -/
theorem exists_filling {d : Nat} {ls : List Lexeme} (h : (block d).run ls = some .between) :
    ∃ (f : Filling) (closing : Text) (rest : List Lexeme),
      ls = f.lexemes ++ ⟨closing, .closeBrace⟩ :: rest ∧
        (behindBlock d).run rest = some .between := by
  induction hlen : ls.length using Nat.strong_induction_on generalizing d ls with
  | _ k ih =>
    cases ls with
    | nil => cases h
    | cons l ls =>
      obtain ⟨m, hstep, hrun⟩ := run_cons_eq_some h
      rw [List.length_cons] at hlen
      obtain ⟨gap, t⟩ := l
      rcases step_block_eq_some hstep with ⟨ht, rfl⟩ | ⟨rfl, rfl⟩ | ⟨rfl, rfl⟩
      · obtain ⟨f, closing, rest, rfl, hrest⟩ := ih ls.length (by omega) hrun rfl
        exact ⟨.token ⟨gap, t⟩ ht f, closing, rest, rfl, hrest⟩
      · obtain ⟨inner, closing, behind, rfl, hbehind⟩ := ih ls.length (by omega) hrun rfl
        simp only [List.length_append, List.length_cons] at hlen
        obtain ⟨next, closing', rest, rfl, hrest⟩ := ih behind.length (by omega) hbehind rfl
        exact ⟨.block gap inner closing next, closing', rest, by simp [Filling.lexemes], hrest⟩
      · exact ⟨.done, gap, ls, rfl, hrun⟩

/-- A way out of a head leads over the tokens of the head to one that is none of them. -/
theorem exists_tail {m : Phase} (hm : m.isInside = true) {ls : List Lexeme}
    (h : m.run ls = some .between) :
    ∃ (tail : Tail) (x : Lexeme) (rest : List Lexeme), ls = tail.lexemes ++ x :: rest ∧
      x.token.isPlain = false ∧ m.run (x :: rest) = some .between := by
  induction ls with
  | nil =>
    cases h
    cases hm
  | cons l ls ih =>
    cases hl : l.token.isPlain with
    | false => exact ⟨⟨[], by simp⟩, l, ls, rfl, hl, h⟩
    | true =>
      rw [run_cons (step_plain hm hl)] at h
      obtain ⟨tail, x, rest, rfl, hx, hrest⟩ := ih h
      exact ⟨⟨l :: tail.lexemes, List.forall_mem_cons.2 ⟨hl, tail.plain⟩⟩, x, rest, rfl, hx, hrest⟩

/-- Behind the head of a rule or an at-rule a brace opens a block. -/
theorem exists_block {gap : Text} {rest : List Lexeme}
    (h : (block 0).run rest = some .between) :
    ∃ (b : Block) (rest' : List Lexeme), ⟨gap, .openBrace⟩ :: rest = b.lexemes ++ rest' ∧
      between.run rest' = some .between := by
  obtain ⟨f, closing, rest', rfl, hrest'⟩ := exists_filling h
  exact ⟨⟨gap, f, closing⟩, rest', by simp [Block.lexemes], hrest'⟩

/-- A way out of the head of a rule leads over a block. -/
theorem exists_of_ruleHead {ls : List Lexeme} (h : ruleHead.run ls = some .between) :
    ∃ (tail : Tail) (b : Block) (rest : List Lexeme),
      ls = tail.lexemes ++ (b.lexemes ++ rest) ∧ between.run rest = some .between := by
  obtain ⟨tail, ⟨gap, t⟩, behind, rfl, hx, hbehind⟩ := exists_tail rfl h
  obtain ⟨m, hstep, hrun⟩ := run_cons_eq_some hbehind
  cases t with
  | openBrace =>
    cases hstep
    obtain ⟨b, rest, hb, hrest⟩ := exists_block hrun
    exact ⟨tail, b, rest, by rw [hb], hrest⟩
  | closeBrace | semicolon | openMarker | closeMarker => cases hstep
  | _ => cases hx

/-- A way out of the head of an at-rule leads over a block or a semicolon. -/
theorem exists_of_atRuleHead {ls : List Lexeme} (h : atRuleHead.run ls = some .between) :
    ∃ (tail : Tail) (rest : List Lexeme), between.run rest = some .between ∧
      ((∃ b : Block, ls = tail.lexemes ++ (b.lexemes ++ rest)) ∨
        ∃ stop, ls = tail.lexemes ++ (⟨stop, .semicolon⟩ :: rest)) := by
  obtain ⟨tail, ⟨gap, t⟩, behind, rfl, hx, hbehind⟩ := exists_tail rfl h
  obtain ⟨m, hstep, hrun⟩ := run_cons_eq_some hbehind
  cases t with
  | openBrace =>
    cases hstep
    obtain ⟨b, rest, hb, hrest⟩ := exists_block hrun
    exact ⟨tail, rest, hrest, .inl ⟨b, by rw [hb]⟩⟩
  | semicolon =>
    cases hstep
    exact ⟨tail, behind, hrun, .inr ⟨gap, rfl⟩⟩
  | closeBrace | openMarker | closeMarker => cases hstep
  | _ => cases hx

/-- A way that leads from between two phrases back there begins with a phrase. -/
theorem exists_phrase {l : Lexeme} {ls : List Lexeme}
    (h : between.run (l :: ls) = some .between) :
    ∃ (p : Phrase) (rest : List Lexeme), l :: ls = p.lexemes ++ rest ∧
      between.run rest = some .between := by
  obtain ⟨m, hstep, hrun⟩ := run_cons_eq_some h
  obtain ⟨gap, t⟩ := l
  cases t with
  | comment t =>
    cases hstep
    exact ⟨.comment gap t, ls, rfl, hrun⟩
  | semicolon | openMarker | closeMarker =>
    cases hstep
    exact ⟨.stray _ rfl, ls, rfl, hrun⟩
  | string | slash | chunk =>
    cases hstep
    obtain ⟨tail, b, rest, rfl, hrest⟩ := exists_of_ruleHead hrun
    exact ⟨.rule _ (by rfl) tail b, rest,
      List.cons_eq_cons.2 ⟨rfl, (List.append_assoc _ _ _).symm⟩, hrest⟩
  | atKeyword keyword =>
    cases hstep
    obtain ⟨tail, rest, hrest, ⟨b, rfl⟩ | ⟨stop, rfl⟩⟩ := exists_of_atRuleHead hrun
    · exact ⟨.atRule gap keyword tail b, rest, by simp [Phrase.lexemes], hrest⟩
    · exact ⟨.blockless gap keyword tail stop, rest, by simp [Phrase.lexemes], hrest⟩
  | openBrace | closeBrace => cases hstep

/-- The tokens that lead from between two phrases back there are those that have a derivation.
Induction on their number, phrase by phrase. -/
theorem run_between_iff {ls : List Lexeme} :
    between.run ls = some .between ↔ ∃ d : Derivation, d.lexemes = ls := by
  constructor
  · intro h
    induction hlen : ls.length using Nat.strong_induction_on generalizing ls with
    | _ k ih =>
      cases ls with
      | nil => exact ⟨[], rfl⟩
      | cons l ls =>
        obtain ⟨p, rest, hp, hrest⟩ := exists_phrase h
        have hpos := List.length_pos_iff.2 p.lexemes_ne_nil
        have hlt : rest.length < k := by
          rw [hp, List.length_append] at hlen
          omega
        obtain ⟨d, rfl⟩ := ih rest.length hlt hrest rfl
        exact ⟨p :: d, by rw [hp, Derivation.lexemes_cons]⟩
  · rintro ⟨d, rfl⟩
    exact run_derivation d

/-! ## Braces are balanced -/

/-- The number of blocks that are open. -/
def depth : Phase → Nat
  | .block d => d + 1
  | _ => 0

theorem depth_step {m n : Phase} {t : Token} (h : m.step t = some n) :
    m.depth + (if t == .openBrace then 1 else 0) = n.depth + if t == .closeBrace then 1 else 0 := by
  cases m with
  | block d =>
    rcases step_block_eq_some h with ⟨ht, rfl⟩ | ⟨rfl, rfl⟩ | ⟨rfl, rfl⟩
    · have hopen : (t == .openBrace) = false := by cases t <;> first | rfl | cases ht
      have hclose : (t == .closeBrace) = false := by cases t <;> first | rfl | cases ht
      rw [hopen, hclose]
    · rfl
    · cases d <;> rfl
  | between | ruleHead | atRuleHead => cases t <;> cases h <;> rfl

end Phase

namespace Lexeme

/-- How many blocks are opened. -/
def opens (ls : List Lexeme) : Nat := ls.countP fun l => l.token == .openBrace

/-- How many blocks are closed. -/
def closes (ls : List Lexeme) : Nat := ls.countP fun l => l.token == .closeBrace

end Lexeme

/-- The blocks that are open behind a way are those that it opened and did not close. -/
theorem Phase.depth_run {m n : Phase} {ls : List Lexeme} (h : m.run ls = some n) :
    m.depth + Lexeme.opens ls = n.depth + Lexeme.closes ls := by
  induction ls generalizing m with
  | nil =>
    cases h
    rfl
  | cons l ls ih =>
    obtain ⟨k, hstep, hrun⟩ := run_cons_eq_some h
    have hk := depth_step hstep
    have hls := ih hrun
    simp only [Lexeme.opens, Lexeme.closes, List.countP_cons] at hls ⊢
    omega

end StylePrune
