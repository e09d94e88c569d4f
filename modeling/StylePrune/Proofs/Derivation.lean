import Mathlib.Data.List.TakeWhile
import StylePrune.Proofs.Statements

/-!
# Derivations

The grammar of stylesheets says which sequences of tokens are a stylesheet, whatever the reader
does. A derivation is a sequence of *phrases*: stray tokens, comments, rules and at-rules, and in
the block of a rule or an at-rule there is a *filling*, in which blocks nest. Every token comes with
the blanks before it, so that a derivation gives the statements as they are written
(`Derivation.statements`).

Two derivations of the same tokens are one (`Derivation.lexemes_injective`): the first token of a
phrase tells what the phrase is, and every phrase ends with a token that tells that it ends there.
-/

namespace StylePrune

/-! ## Lexemes -/

/-- A token and the blanks before it. -/
structure Lexeme where
  gap : Text
  token : Token
deriving DecidableEq, Repr

namespace Lexeme

def text (l : Lexeme) : Text := l.gap ++ l.token.text

/-- The text of lexemes in a row. -/
def textOf (ls : List Lexeme) : Text := ls.flatMap text

@[simp] theorem textOf_nil : textOf [] = [] := rfl

@[simp] theorem textOf_cons (l : Lexeme) (ls : List Lexeme) :
    textOf (l :: ls) = l.text ++ textOf ls := rfl

@[simp] theorem textOf_append (as bs : List Lexeme) :
    textOf (as ++ bs) = textOf as ++ textOf bs :=
  List.flatMap_append

end Lexeme

namespace Token

/-- A token that is skipped between statements. -/
def isStray : Token → Bool
  | .semicolon | .openMarker | .closeMarker => true
  | _ => false

/-- A token that may stand in a block and is no brace. -/
def isFilling (t : Token) : Bool := t.isPlain || t == .semicolon

theorem isFilling_of_ne {t : Token} (hclose : t ≠ .closeBrace) (hopen : t ≠ .openBrace)
    (hopenMarker : t ≠ .openMarker) (hcloseMarker : t ≠ .closeMarker) : t.isFilling = true := by
  cases t with
  | closeBrace => exact absurd rfl hclose
  | openBrace => exact absurd rfl hopen
  | openMarker => exact absurd rfl hopenMarker
  | closeMarker => exact absurd rfl hcloseMarker
  | _ => rfl

end Token

/-! ## The grammar -/

/-- The tokens of a head behind its first one. -/
structure Tail where
  lexemes : List Lexeme
  plain : ∀ l ∈ lexemes, l.token.isPlain = true

/-- What stands between the braces of a block. Braces inside it come with the blanks before them. -/
inductive Filling where
  | done
  | token (l : Lexeme) (h : l.token.isFilling = true) (next : Filling)
  | block (opening : Text) (inner : Filling) (closing : Text) (next : Filling)

def Filling.lexemes : Filling → List Lexeme
  | .done => []
  | .token l _ next => l :: next.lexemes
  | .block opening inner closing next =>
    ⟨opening, .openBrace⟩ :: (inner.lexemes ++ ⟨closing, .closeBrace⟩ :: next.lexemes)

/-- A block, with the blanks before its braces. -/
structure Block where
  opening : Text
  filling : Filling
  closing : Text

namespace Block

def lexemes (b : Block) : List Lexeme :=
  ⟨b.opening, .openBrace⟩ :: (b.filling.lexemes ++ [⟨b.closing, .closeBrace⟩])

/-- What stands between the braces. -/
def body (b : Block) : Text := Lexeme.textOf b.filling.lexemes ++ b.closing

end Block

/-- A piece of a stylesheet: a stray token or a statement. -/
inductive Phrase where
  | stray (l : Lexeme) (h : l.token.isStray = true)
  | comment (gap text : Text)
  | rule (first : Lexeme) (h : first.token.startsRule = true) (tail : Tail) (block : Block)
  | atRule (gap keyword : Text) (tail : Tail) (block : Block)
  /-- An at-rule that ends with a semicolon. -/
  | blockless (gap keyword : Text) (tail : Tail) (stop : Text)

namespace Phrase

def lexemes : Phrase → List Lexeme
  | .stray l _ => [l]
  | .comment gap t => [⟨gap, .comment t⟩]
  | .rule first _ tail block => first :: (tail.lexemes ++ block.lexemes)
  | .atRule gap keyword tail block => ⟨gap, .atKeyword keyword⟩ :: (tail.lexemes ++ block.lexemes)
  | .blockless gap keyword tail stop =>
    ⟨gap, .atKeyword keyword⟩ :: (tail.lexemes ++ [⟨stop, .semicolon⟩])

/-- The statement that a phrase is, if it is one; `skipped` is the text of the stray tokens before
it. -/
def statement? (skipped : Text) : Phrase → Option Statement
  | .stray _ _ => none
  | .comment gap t => some (.comment (skipped ++ gap) t)
  | .rule first _ tail block =>
    some (.rule (skipped ++ first.gap)
      (first.token.text ++ (Lexeme.textOf tail.lexemes ++ block.opening)) block.body)
  | .atRule gap keyword tail block =>
    some (.atRule (skipped ++ gap) keyword (Lexeme.textOf tail.lexemes ++ block.opening)
      (some block.body))
  | .blockless gap keyword tail stop =>
    some (.atRule (skipped ++ gap) keyword (Lexeme.textOf tail.lexemes ++ stop) none)

end Phrase

/-- A stylesheet as the grammar derives it. -/
abbrev Derivation := List Phrase

namespace Derivation

def lexemes (d : Derivation) : List Lexeme := d.flatMap Phrase.lexemes

@[simp] theorem lexemes_nil : lexemes [] = [] := rfl

@[simp] theorem lexemes_cons (p : Phrase) (d : Derivation) :
    lexemes (p :: d) = p.lexemes ++ lexemes d := rfl

/-- The statements of a stylesheet, in order, and the text behind the last of them. The text of the
stray tokens before a statement leads it; `gap` stands at the end. -/
def statements (skipped : Text) (gap : Text) : Derivation → List Statement × Text
  | [] => ([], skipped ++ gap)
  | p :: d =>
    match p.statement? skipped with
    | none => statements (skipped ++ Lexeme.textOf p.lexemes) gap d
    | some st => (st :: (statements [] gap d).1, (statements [] gap d).2)

end Derivation

/-! ## Derivations are unique -/

/-- A head ends at its first token that belongs in none. -/
theorem Tail.append_inj {a b : Tail} {x y : Lexeme} {r s : List Lexeme}
    (hx : x.token.isPlain = false) (hy : y.token.isPlain = false)
    (h : a.lexemes ++ x :: r = b.lexemes ++ y :: s) : a = b ∧ x = y ∧ r = s := by
  have htake : ∀ (t : Tail) {z : Lexeme} (u : List Lexeme), z.token.isPlain = false →
      (t.lexemes ++ z :: u).takeWhile (fun l => l.token.isPlain) = t.lexemes := by
    intro t z u hz
    rw [List.takeWhile_append_of_pos t.plain, List.takeWhile_cons_of_neg (by simp [hz]),
      List.append_nil]
  have hab : a.lexemes = b.lexemes := by rw [← htake a r hx, h, htake b s hy]
  rw [hab, List.append_cancel_left_eq, List.cons.injEq] at h
  obtain ⟨as, _⟩ := a
  obtain ⟨bs, _⟩ := b
  cases hab
  exact ⟨rfl, h⟩

/-- A filling ends at the first brace that closes none of its blocks. -/
theorem Filling.append_inj {f g : Filling} {a b : Text} {r s : List Lexeme}
    (h : f.lexemes ++ ⟨a, .closeBrace⟩ :: r = g.lexemes ++ ⟨b, .closeBrace⟩ :: s) :
    f = g ∧ a = b ∧ r = s := by
  induction f generalizing g a b r s with
  | done =>
    cases g with
    | done => simpa [lexemes] using h
    | token l hl =>
      obtain ⟨rfl, -⟩ := List.cons.inj h
      cases hl
    | block => cases h
  | token l hl next ih =>
    cases g with
    | done =>
      obtain ⟨rfl, -⟩ := List.cons.inj h
      cases hl
    | token l' hl' next' =>
      obtain ⟨rfl, hnext⟩ := List.cons.inj h
      obtain ⟨rfl, hrest⟩ := ih hnext
      exact ⟨rfl, hrest⟩
    | block =>
      obtain ⟨rfl, -⟩ := List.cons.inj h
      cases hl
  | block opening inner closing next ihinner ihnext =>
    cases g with
    | done => cases h
    | token l hl =>
      obtain ⟨rfl, -⟩ := List.cons.inj h
      cases hl
    | block opening' inner' closing' next' =>
      simp only [lexemes, List.cons_append, List.append_assoc, List.cons.injEq, Lexeme.mk.injEq,
        and_true] at h
      obtain ⟨rfl, h⟩ := h
      obtain ⟨rfl, rfl, hnext⟩ := ihinner h
      obtain ⟨rfl, hrest⟩ := ihnext hnext
      exact ⟨rfl, hrest⟩

theorem Block.append_inj {b c : Block} {r s : List Lexeme}
    (h : b.lexemes ++ r = c.lexemes ++ s) : b = c ∧ r = s := by
  obtain ⟨opening, f, closing⟩ := b
  obtain ⟨opening', g, closing'⟩ := c
  simp only [lexemes, List.cons_append, List.append_assoc, List.cons.injEq, Lexeme.mk.injEq,
    and_true] at h
  obtain ⟨rfl, h⟩ := h
  obtain ⟨rfl, rfl, hrest⟩ := Filling.append_inj h
  exact ⟨rfl, hrest⟩

/-- A head is followed by one block. -/
theorem Tail.append_block_inj {t u : Tail} {b c : Block} {r s : List Lexeme}
    (h : t.lexemes ++ b.lexemes ++ r = u.lexemes ++ c.lexemes ++ s) : t = u ∧ b = c ∧ r = s := by
  simp only [List.append_assoc] at h
  have hopen : ∀ (b : Block) (r : List Lexeme), b.lexemes ++ r = ⟨b.opening, .openBrace⟩ ::
      (b.filling.lexemes ++ [⟨b.closing, .closeBrace⟩] ++ r) := fun _ _ => rfl
  rw [hopen, hopen] at h
  obtain ⟨rfl, hfirst, hrest⟩ := Tail.append_inj rfl rfl h
  have hblocks : b.lexemes ++ r = c.lexemes ++ s := by rw [hopen, hopen, hfirst, hrest]
  exact ⟨rfl, Block.append_inj hblocks⟩

namespace Phrase

/-- What a phrase is, as far as its first token tells: not whether an at-rule has a block. -/
inductive Kind where
  | stray
  | comment
  | rule
  | atRule

def kind : Phrase → Kind
  | .stray .. => .stray
  | .comment .. => .comment
  | .rule .. => .rule
  | .atRule .. | .blockless .. => .atRule

/-- What the phrase is that begins with a token. No phrase begins with a brace. -/
def kindOf? : Token → Option Kind
  | .semicolon | .openMarker | .closeMarker => some .stray
  | .comment _ => some .comment
  | .string _ | .slash | .chunk _ => some .rule
  | .atKeyword _ => some .atRule
  | .openBrace | .closeBrace => none

theorem kindOf?_of_isStray {t : Token} (h : t.isStray = true) : kindOf? t = some .stray := by
  cases t with
  | semicolon | openMarker | closeMarker => rfl
  | _ => cases h

theorem kindOf?_of_startsRule {t : Token} (h : t.startsRule = true) : kindOf? t = some .rule := by
  cases t with
  | string | slash | chunk => rfl
  | _ => cases h

/-- Every phrase begins with a token of its kind. -/
theorem exists_first (p : Phrase) :
    ∃ l ls, p.lexemes = l :: ls ∧ kindOf? l.token = some p.kind := by
  cases p with
  | stray l h => exact ⟨l, _, rfl, kindOf?_of_isStray h⟩
  | rule l h => exact ⟨l, _, rfl, kindOf?_of_startsRule h⟩
  | comment | atRule | blockless => exact ⟨_, _, rfl, rfl⟩

theorem lexemes_ne_nil (p : Phrase) : p.lexemes ≠ [] := by
  obtain ⟨l, ls, hl, -⟩ := p.exists_first
  simp [hl]

theorem kind_eq {p q : Phrase} {r s : List Lexeme} (h : p.lexemes ++ r = q.lexemes ++ s) :
    p.kind = q.kind := by
  obtain ⟨l, ls, hl, hp⟩ := p.exists_first
  obtain ⟨l', ls', hl', hq⟩ := q.exists_first
  rw [hl, hl'] at h
  obtain ⟨rfl, -⟩ := List.cons.inj h
  exact Option.some.inj (hp.symm.trans hq)

/-- A phrase is told by its first token, and it ends where it must. -/
theorem append_inj {p q : Phrase} {r s : List Lexeme} (h : p.lexemes ++ r = q.lexemes ++ s) :
    p = q ∧ r = s := by
  have hkind := kind_eq h
  cases p with
  | stray =>
    cases q with
    | stray => simpa [lexemes] using h
    | _ => cases hkind
  | comment =>
    cases q with
    | comment => simpa [lexemes] using h
    | _ => cases hkind
  | rule first hfirst tail block =>
    cases q with
    | rule =>
      simp only [lexemes, List.cons_append, List.cons.injEq] at h
      obtain ⟨rfl, hrest⟩ := h
      obtain ⟨rfl, rfl, hbehind⟩ := Tail.append_block_inj hrest
      exact ⟨rfl, hbehind⟩
    | _ => cases hkind
  | atRule gap keyword tail block =>
    cases q with
    | atRule =>
      simp only [lexemes, List.cons_append, List.cons.injEq] at h
      obtain ⟨hhead, hrest⟩ := h
      obtain ⟨rfl, rfl, hbehind⟩ := Tail.append_block_inj hrest
      cases hhead
      exact ⟨rfl, hbehind⟩
    | blockless =>
      -- one head ends with a brace, the other one with a semicolon
      simp only [lexemes, Block.lexemes, List.append_assoc, List.cons_append, List.cons.injEq] at h
      cases (Tail.append_inj rfl rfl h.2).2.1
    | _ => cases hkind
  | blockless gap keyword tail stop =>
    cases q with
    | blockless =>
      simp only [lexemes, List.append_assoc, List.cons_append, List.cons.injEq] at h
      obtain ⟨hhead, hrest⟩ := h
      obtain ⟨rfl, hstop, hbehind⟩ := Tail.append_inj rfl rfl hrest
      cases hhead
      cases hstop
      exact ⟨rfl, hbehind⟩
    | atRule =>
      simp only [lexemes, Block.lexemes, List.append_assoc, List.cons_append, List.cons.injEq] at h
      cases (Tail.append_inj rfl rfl h.2).2.1
    | _ => cases hkind

end Phrase

/-- There is at most one derivation of a sequence of tokens. -/
theorem Derivation.lexemes_injective {d e : Derivation} (h : d.lexemes = e.lexemes) : d = e := by
  induction d generalizing e with
  | nil =>
    cases e with
    | nil => rfl
    | cons q e => exact absurd (List.append_eq_nil_iff.1 h.symm).1 q.lexemes_ne_nil
  | cons p d ih =>
    cases e with
    | nil => exact absurd (List.append_eq_nil_iff.1 h).1 p.lexemes_ne_nil
    | cons q e =>
      obtain ⟨rfl, hrest⟩ := Phrase.append_inj h
      rw [ih hrest]

end StylePrune
