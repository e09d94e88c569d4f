import StylePrune.Proofs.Outcome
import StylePrune.Proofs.Truncation

/-!
# Where the grammar gives up

The reader gives up at the first token that may not stand where it stands, or where no token begins.
Up to there nothing is lost: the tokens that were read lead to a phase, every phase can be closed
with braces and semicolons, and those leave the tokens before them as they are. From there on
nothing can be saved: a token is refused only if it is a brace, a semicolon or a marker, and then
the text behind it decides neither about it nor about the tokens before it.

What a fault tells about a text (`Halts`) is proved of each reader along its own recursion, as for
texts that are read: lexemes lead from the phase that the reader begins in to one in which the next
token is refused.

* `viable_of_lexes`: what was read is the beginning of a text that the grammar accepts.
* `not_viable_of_refused`: with a refused token behind it, it is not.
* `Statement.halts_of_readFrom`: the fault of a text tells how far its lexemes lead.
* `Stylesheet.parse_first_hopeless`: where an error is reported, and what it says about the text.
-/

namespace StylePrune

open Lexeme (textOf)

/-! ## Viable beginnings -/

/-- Some text that begins with this one is accepted by the grammar. -/
def Viable (u : Text) : Prop := ∃ more outline, Outline.parse (u ++ more) = .ok outline

/-- The grammar accepts a text when its tokens lead from between two phrases back there. -/
theorem grammatical_iff_run {source : Text} :
    Grammatical source ↔
      ∃ ls gap, Lexed source ls gap ∧ Phase.between.run ls = some .between := by
  constructor
  · intro h
    obtain ⟨-, -, ls, gap, d, hls, hd, -⟩ := h
    exact ⟨ls, gap, hls, Phase.run_between_iff.2 ⟨d, hd⟩⟩
  · intro h
    obtain ⟨ls, gap, hls, hrun⟩ := h
    obtain ⟨d, hd⟩ := Phase.run_between_iff.1 hrun
    exact ⟨_, _, ls, gap, d, hls, hd, rfl⟩

theorem viable_iff {u : Text} : Viable u ↔ ∃ more, Grammatical (u ++ more) :=
  exists_congr fun _ => ⟨fun h => .of_parse h.choose_spec, Grammatical.exists_parse⟩

section

variable {source gap rest : Text} {ls : List Lexeme} {l : Lexeme} {m : Phase}

/-- What was lexed on the way to a phase, with the blanks behind it, is a viable beginning: the
phase can be closed. -/
theorem viable_of_lexes (h : Lexes [] source ls (gap ++ rest))
    (hgap : ∀ c ∈ gap, Text.isBlank c = true) (hrun : Phase.between.run ls = some m) :
    Viable (textOf ls ++ gap) := by
  obtain ⟨x, r, hclosing, hx⟩ := m.closing_eq_cons
  obtain ⟨more, hmore, hout⟩ := m.lexes_closing ([] ++ ls) hgap
  have hagain := h.cutOff hx hgap r
  rw [← hclosing] at hagain
  refine viable_iff.2 ⟨m.closing, grammatical_iff_run.2 ⟨ls ++ more, [], ⟨?_, by simp⟩, ?_⟩⟩
  · rw [List.append_assoc]
    exact Lexes.append_iff.2 ⟨_, hagain, hmore⟩
  · rw [Phase.run_append_of_run hrun, hout]

/-- Only braces, semicolons and markers are ever refused. -/
theorem Phase.exists_separator {t : Token} (hstep : m.step t = none) (ht : t.isMarker = false) :
    ∃ x, isStructural x = true ∧ t = Token.separator x := by
  cases t with
  | openBrace => exact ⟨'{', rfl, rfl⟩
  | closeBrace => exact ⟨'}', rfl, rfl⟩
  | semicolon => exact ⟨';', rfl, rfl⟩
  | openMarker | closeMarker => cases ht
  | comment | string | slash | atKeyword | chunk => cases m <;> cases hstep

/-- A marker is refused behind a closing brace only. -/
theorem Phase.behindBrace_of_marker {t : Token} (hrun : Phase.between.run ls = some m)
    (hstep : m.step t = none) (ht : t.isMarker = true) (hawaits : Awaits ls) :
    BehindBrace ls := by
  cases m with
  | between =>
    cases t with
    | openMarker | closeMarker => cases hstep
    | _ => cases ht
  | ruleHead | atRuleHead => exact absurd hawaits (not_awaits_of_head rfl hrun)
  | block d => exact (awaits_block_iff hrun).1 hawaits

/-- A refused token, and those before it, are lexed again whatever stands behind it. -/
theorem Lexes.refused (h : Lexes [] source (ls ++ [l]) rest)
    (hrun : Phase.between.run ls = some m) (hstep : m.step l.token = none) (more : Text) :
    Lexes [] (textOf (ls ++ [l]) ++ more) (ls ++ [l]) more := by
  obtain ⟨s, hls, hl⟩ := Lexes.append_iff.1 h
  obtain ⟨gap, t⟩ := l
  obtain ⟨v, rfl, hgap, htaken⟩ := Lexes.singleton_iff.1 hl
  have htext : textOf (ls ++ [⟨gap, t⟩]) ++ more = textOf ls ++ (gap ++ (t.text ++ more)) := by
    simp [Lexeme.text]
  rw [htext]
  cases hmarker : t.isMarker with
  | false =>
    obtain ⟨x, hx, rfl⟩ := Phase.exists_separator hstep hmarker
    rw [Token.text_separator hx]
    exact Lexes.append_iff.2 ⟨_, hls.cutOff hx hgap more, .separator hx _ hgap more⟩
  | true =>
    have hawaits : Awaits ls := (htaken.marker.1 hmarker).1
    have hbrace := Phase.behindBrace_of_marker hrun hstep hmarker hawaits
    exact Lexes.append_iff.2 ⟨_, hls.behind_brace hbrace _, .marker hmarker hawaits hgap more⟩

/-- A text that goes on with a refused token is hopeless. -/
theorem not_viable_of_refused (h : Lexes [] source (ls ++ [l]) rest)
    (hrun : Phase.between.run ls = some m) (hstep : m.step l.token = none) :
    ¬ Viable (textOf (ls ++ [l])) := by
  intro hviable
  obtain ⟨more, hmore⟩ := viable_iff.1 hviable
  obtain ⟨ls', gap', hls', hrun'⟩ := grammatical_iff_run.1 hmore
  obtain ⟨bs, rfl, -⟩ := hls'.lexes.extend hls'.blank (h.refused hrun hstep more)
  rw [List.append_assoc, Phase.run_append_of_run hrun] at hrun'
  obtain ⟨n, hn, -⟩ := Phase.run_cons_eq_some hrun'
  rw [hstep] at hn
  cases hn

end

/-! ## What a fault tells -/

/-- What a fault tells about a text that is lexed behind the lexemes `before` in the phase `m`: how
far lexemes lead, and what stands there. -/
inductive Halts (before : List Lexeme) (m : Phase) (s : Text) : GrammarFault → Prop where
  | noToken {ls : List Lexeme} {n : Phase} {gap rest : Text}
      (h : Lexes before s ls (gap ++ rest)) (hgap : ∀ c ∈ gap, Text.isBlank c = true)
      (hrun : m.run ls = some n) (hne : rest ≠ []) : Halts before m s (.noToken rest)
  | unexpected {ls : List Lexeme} {n : Phase} {l : Lexeme} {rest : Text}
      (h : Lexes before s (ls ++ [l]) rest) (hrun : m.run ls = some n)
      (hstep : n.step l.token = none) :
      Halts before m s (.unexpected l.token (l.token.text ++ rest))
  | unfinished (last : Text) : Halts before m s (.unfinished last)

theorem nextToken_stuck {markers : Bool} {s rest : Text} (h : nextToken markers s = .stuck rest) :
    ∃ gap, s = gap ++ rest ∧ (∀ c ∈ gap, Text.isBlank c = true) ∧ rest ≠ [] := by
  have happ := List.takeWhile_append_dropWhile (p := Text.isBlank) (l := s)
  unfold nextToken at h
  split at h
  · cases h
  · rename_i c r hdrop
    split at h
    · cases h
    · cases h
      rw [hdrop] at happ
      exact ⟨_, happ.symm, fun d => List.mem_takeWhile_imp, by simp⟩

namespace Halts

variable {before ls : List Lexeme} {m n : Phase} {s rest gap : Text} {t : Token}
  {fault : GrammarFault} {markers : Bool}

/-- What halts the reading behind some lexemes halts it before them. -/
theorem behind (h : Lexes before s ls rest) (hrun : m.run ls = some n)
    (hfault : Halts (before ++ ls) n rest fault) : Halts before m s fault := by
  cases hfault with
  | noToken hmore hgap hmoreRun hne =>
    exact .noToken (Lexes.append_iff.2 ⟨_, h, hmore⟩) hgap
      ((Phase.run_append_of_run hrun _).trans hmoreRun) hne
  | unexpected hmore hmoreRun hstep =>
    have hall := Lexes.append_iff.2 ⟨_, h, hmore⟩
    rw [← List.append_assoc] at hall
    exact .unexpected hall ((Phase.run_append_of_run hrun _).trans hmoreRun) hstep
  | unfinished last => exact .unfinished last

theorem of_stuck (h : nextToken markers s = .stuck rest) : Halts before m s (.noToken rest) := by
  obtain ⟨gap, rfl, hgap, hne⟩ := nextToken_stuck h
  exact .noToken (.nil _ _) hgap rfl hne

section

variable (hmarkers : markers = true ↔ Awaits before)
  (h : nextToken markers s = .found gap t rest)
include hmarkers h

theorem of_refused (hstep : m.step t = none) :
    Halts before m s (.unexpected t (t.text ++ rest)) := by
  have hlexes : Lexes before s ([] ++ [⟨gap, t⟩]) rest :=
    (Lexes.cons_iff hmarkers).2 ⟨rest, h, .nil _ _⟩
  exact .unexpected hlexes rfl hstep

theorem behind_token (hstep : m.step t = some n)
    (hfault : Halts (before ++ [⟨gap, t⟩]) n rest fault) : Halts before m s fault := by
  have hlexes : Lexes before s [⟨gap, t⟩] rest :=
    (Lexes.cons_iff hmarkers).2 ⟨rest, h, .nil _ _⟩
  exact behind hlexes (Phase.run_cons hstep []) hfault

end

end Halts

/-! ## The readers halt as their faults tell -/

namespace Statement

variable {before : List Lexeme} {last s rest : Text} {fault : GrammarFault}

section

variable {m : Phase} (hm : m.isHead = true)
include hm

theorem not_awaiting (hrun : Phase.between.run before = some m) :
    false = true ↔ Awaits before :=
  iff_of_false (by decide) (not_awaits_of_head hm hrun)

/-- A head halts as its fault tells. Induction on its tokens. -/
theorem halts_of_readHead (hrun : Phase.between.run before = some m)
    (h : readHead last s = .error fault) : Halts before m s fault := by
  fun_induction readHead last s generalizing before with
  | case1 =>
    cases h
    exact .unfinished _
  | case2 last s rest hs =>
    cases h
    exact .of_stuck hs
  | case3 | case4 => cases h
  | case5 last s gap rest hs =>
    have hrefused : m.step .closeBrace = none := by
      cases m with
      | between | block => cases hm
      | ruleHead | atRuleHead => rfl
    cases h
    exact .of_refused (not_awaiting hm hrun) hs hrefused
  | case6 last s gap token rest hopen hsemi hclose hs ih =>
    have ht : token.isPlain = true := nextToken_plain hs hopen hclose hsemi
    have hstep := Phase.step_plain (Phase.isInside_of_isHead hm) ht
    have hrest := ih (Phase.run_snoc (l := ⟨gap, token⟩) hrun hstep) (Text.prepend_eq_error_iff.1 h)
    exact .behind_token (not_awaiting hm hrun) hs hstep hrest

end

/-- Behind a token in a block a marker is awaited if the token is a closing brace. -/
theorem awaits_behind {d : Nat} {l : Lexeme}
    (hrun : Phase.between.run (before ++ [l]) = some (.block d)) :
    Awaits (before ++ [l]) ↔ l.token = .closeBrace :=
  (awaits_block_iff hrun).trans behindBrace_append

/-- A block halts as its fault tells. Induction on its tokens. -/
theorem halts_of_readBody {d : Nat} {closed : Bool}
    (hrun : Phase.between.run before = some (.block d))
    (hclosed : closed = true ↔ Awaits before) (h : readBody d closed last s = .error fault) :
    Halts before (.block d) s fault := by
  fun_induction readBody d closed last s generalizing before with
  | case1 =>
    cases h
    exact .unfinished _
  | case2 depth closed last s rest hs =>
    cases h
    exact .of_stuck hs
  | case3 => cases h
  | case4 closed last s gap rest hs depth ih =>
    have hstep : Phase.step (.block (depth + 1)) .closeBrace = some (.block depth) := rfl
    have hrun' := Phase.run_snoc (l := ⟨gap, .closeBrace⟩) hrun hstep
    have hrest := ih hrun' (by simp [awaits_behind hrun']) (Text.prepend_eq_error_iff.1 h)
    exact .behind_token hclosed hs hstep hrest
  | case5 depth closed last s gap rest hs ih =>
    have hstep : Phase.step (.block depth) .openBrace = some (.block (depth + 1)) := rfl
    have hrun' := Phase.run_snoc (l := ⟨gap, .openBrace⟩) hrun hstep
    have hrest := ih hrun' (by simp [awaits_behind hrun']) (Text.prepend_eq_error_iff.1 h)
    exact .behind_token hclosed hs hstep hrest
  | case6 depth closed last s gap rest hs =>
    cases h
    exact .of_refused hclosed hs rfl
  | case7 depth closed last s gap rest hs =>
    cases h
    exact .of_refused hclosed hs rfl
  | case8 depth closed last s gap token rest hclose hopen hcdo hcdc hs ih =>
    have htoken : token.isFilling = true := Token.isFilling_of_ne hclose hopen hcdo hcdc
    have hstep := Phase.step_filling (d := depth) htoken
    have hrun' := Phase.run_snoc (l := ⟨gap, token⟩) hrun hstep
    have hnone : ¬ token = .closeBrace := hclose
    have hrest := ih hrun' (by simp [awaits_behind hrun', hnone]) (Text.prepend_eq_error_iff.1 h)
    exact .behind_token hclosed hs hstep hrest

/-- A block behind a head halts as its fault tells. -/
theorem halts_of_readHead_block {m : Phase} {head r : Text} (hm : m.isHead = true)
    (hrun : Phase.between.run before = some m) (hhead : readHead last s = .ok (head, .block r))
    (hbody : readBody 0 false ('{' :: r) r = .error fault) : Halts before m s fault := by
  obtain ⟨opening, hlexes, hopen, hbrace⟩ := lexes_of_readHead_open hm hrun hhead
  have hrunBlock : Phase.between.run (before ++ opening) = some (.block 0) := by
    rw [Phase.run_append_of_run hrun, hopen]
  have hclosed : false = true ↔ Awaits (before ++ opening) :=
    (iff_of_false (by decide) hbrace).trans (awaits_block_iff hrunBlock).symm
  exact .behind hlexes hopen (halts_of_readBody hrunBlock hclosed hbody)

/-- A rule halts as its fault tells: in its head, at a semicolon, or in its block. -/
theorem halts_of_readRule {leading first : Text} (hrun : Phase.between.run before = some .ruleHead)
    (h : readRule leading first s = .error fault) : Halts before .ruleHead s fault := by
  unfold readRule at h
  split at h
  · rename_i hhead
    cases h
    exact halts_of_readHead rfl hrun hhead
  · rename_i hhead
    obtain ⟨tail, gap, x, r, htail, hstop, hlexes⟩ := lexes_of_readHead rfl hrun hhead
    cases hstop
    cases h
    exact .unexpected hlexes (Phase.run_tail rfl htail) rfl
  · rename_i hhead
    split at h
    · rename_i hbody
      cases h
      exact halts_of_readHead_block rfl hrun hhead hbody
    · cases h

theorem halts_of_readAtRule {leading keyword : Text}
    (hrun : Phase.between.run before = some .atRuleHead)
    (h : readAtRule leading keyword s = .error fault) : Halts before .atRuleHead s fault := by
  unfold readAtRule at h
  split at h
  · rename_i hhead
    cases h
    exact halts_of_readHead rfl hrun hhead
  · cases h
  · rename_i hhead
    split at h
    · rename_i hbody
      cases h
      exact halts_of_readHead_block rfl hrun hhead hbody
    · cases h

theorem cons_eq_error_iff {st : Statement} {x : Except GrammarFault (List Statement × Text)} :
    cons st x = .error fault ↔ x = .error fault := by
  cases x with
  | error e => rfl
  | ok found => simp [cons]

section

variable {gap : Text} {t : Token} (hrun : Phase.between.run before = some .between)
include hrun

/-- Where statements are not read behind a token, the token is refused, or the statement that it
begins halts, or that statement is read and the next ones are not. -/
theorem halts_of_readToken {lead : Text} (h : readToken lead t rest = .error fault) :
    (Phase.step .between t = none ∧ fault = .unexpected t (t.text ++ rest)) ∨
      ∃ m, Phase.step .between t = some m ∧
        (Halts (before ++ [⟨gap, t⟩]) m rest fault ∨
          ∃ ls rest' skipped, Lexes (before ++ [⟨gap, t⟩]) rest ls rest' ∧
            m.run ls = some .between ∧ readFrom skipped rest' = .error fault) := by
  have hbegin : ∀ {m : Phase}, Phase.step .between t = some m →
      Phase.between.run (before ++ [⟨gap, t⟩]) = some m :=
    fun hstep => Phase.run_snoc hrun hstep
  cases t with
  | comment t =>
    exact .inr ⟨_, rfl, .inr ⟨[], rest, [], .nil _ _, rfl, cons_eq_error_iff.1 h⟩⟩
  | semicolon | openMarker | closeMarker =>
    exact .inr ⟨_, rfl, .inr ⟨[], rest, _, .nil _ _, rfl, h⟩⟩
  | openBrace | closeBrace =>
    cases h
    exact .inl ⟨rfl, rfl⟩
  | atKeyword keyword =>
    refine .inr ⟨.atRuleHead, rfl, ?_⟩
    simp only [readToken] at h
    split at h
    · rename_i hst
      cases h
      exact .inl (halts_of_readAtRule (hbegin rfl) hst)
    · rename_i hst
      obtain ⟨ls, hls, hout⟩ := lexes_of_readAtRule (hbegin rfl) hst
      exact .inr ⟨ls, _, [], hls, hout, cons_eq_error_iff.1 h⟩
  | string | slash | chunk =>
    refine .inr ⟨.ruleHead, rfl, ?_⟩
    simp only [readToken] at h
    split at h
    · rename_i hst
      cases h
      exact .inl (halts_of_readRule (hbegin rfl) hst)
    · rename_i hst
      obtain ⟨ls, hls, hout⟩ := lexes_of_readRule (hbegin rfl) hst
      exact .inr ⟨ls, _, [], hls, hout, cons_eq_error_iff.1 h⟩

/-- A stylesheet halts as its fault tells. Induction on the length of the text, which every phrase
shortens. -/
theorem halts_of_readFrom {skipped : Text} (h : readFrom skipped s = .error fault) :
    Halts before .between s fault := by
  induction hlen : s.length using Nat.strong_induction_on generalizing before skipped s with
  | _ k ih =>
    rcases hnext : nextToken true s with gap | rest | ⟨gap, t, rest⟩
    · rw [readFrom_finished hnext] at h
      cases h
    · rw [readFrom_stuck hnext] at h
      cases h
      exact .of_stuck hnext
    · have hmarkers : true = true ↔ Awaits before := iff_of_true rfl (awaits_between hrun)
      rw [readFrom_found hnext] at h
      rcases @halts_of_readToken before rest fault gap t hrun _ h with
        ⟨hstep, rfl⟩ | ⟨m, hstep, hhalts | ⟨ls, rest', skipped', hls, hout, hread⟩⟩
      · exact .of_refused hmarkers hnext hstep
      · exact .behind_token hmarkers hnext hstep hhalts
      · have hrun' : Phase.between.run (before ++ [⟨gap, t⟩] ++ ls) = some .between := by
          rw [Phase.run_append_of_run (Phase.run_snoc hrun hstep), hout]
        have hlt : rest'.length < k :=
          hlen ▸ hls.length_le.trans_lt (nextToken_length_lt hnext)
        have hrest := ih rest'.length hlt hrun' hread rfl
        exact .behind_token hmarkers hnext hstep (.behind hls hout hrest)

end

end Statement

/-! ## Positions -/

/-- The line and the column of the place behind a text: lines are counted by the line feeds before
it, and columns from the last of them. -/
structure Position.Behind (p : Position) (u : Text) : Prop where
  line : p.line = u.count '\n' + 1
  first : '\n' ∉ u → p.column = u.length + 1
  later : ∀ v w, u = v ++ '\n' :: w → '\n' ∉ w → p.column = w.length + 1

theorem Position.behind_after (u : Text) : (Position.after u).Behind u := by
  have hall : ∀ {w : Text}, '\n' ∉ w → ∀ c ∈ w.reverse, (c != '\n') = true := by
    intro w hw c hc
    simp only [bne_iff_ne]
    intro heq
    exact hw (heq ▸ List.mem_reverse.1 hc)
  refine ⟨rfl, fun hnone => ?_, fun v w hu hnone => ?_⟩
  · show (u.reverse.takeWhile (· != '\n')).length + 1 = _
    rw [List.takeWhile_eq_self_iff.2 (hall hnone), List.length_reverse]
  · show (u.reverse.takeWhile (· != '\n')).length + 1 = _
    have hreverse : u.reverse = w.reverse ++ '\n' :: v.reverse := by simp [hu]
    rw [hreverse, List.takeWhile_append_of_pos (hall hnone), List.takeWhile_cons_of_neg (by simp),
      List.append_nil, List.length_reverse]

/-- An error stands behind what was read before its fault. -/
theorem GrammarFault.toError_behind {fault : GrammarFault} {source u : Text}
    (h : source = u ++ fault.remaining) : (fault.toError source).position.Behind u := by
  have htake : source.take (source.length - fault.remaining.length) = u := by
    rw [h, List.length_append, Nat.add_sub_cancel, List.take_left]
  show (Position.after _).Behind u
  rw [htake]
  exact Position.behind_after u

/-! ## The first hopeless token -/

namespace Stylesheet

theorem exists_fault {source : Text} {e : GrammarError} (h : parse source = .error (.grammar e)) :
    ∃ fault, Statement.readFrom [] source = .error fault ∧ e = fault.toError source := by
  cases hread : Statement.readFrom [] source with
  | error fault =>
    have hparse : parse source = .error (.grammar (fault.toError source)) := by
      simp only [parse, Outline.parse, Statement.readAll, hread]
    rw [hparse] at h
    cases h
    exact ⟨fault, rfl, rfl⟩
  | ok found =>
    have hgrammar := parse_eq_grammar_error_iff.1 ⟨e, h⟩
    have hall : Statement.readAll source = .ok found := by rw [Statement.readAll, hread]
    exact absurd ⟨_, _, derives_iff.2 hall⟩ hgrammar

/-- Where the grammar gives up, other than at the end of the text: the error tells the line and the
column of that place, and what stands before it is the beginning of some text that the grammar
accepts. If a token is unexpected, it stands there, and no text that begins with all this and the
token is accepted. -/
theorem parse_first_hopeless {source : Text} {e : GrammarError}
    (h : parse source = .error (.grammar e)) (hcause : e.cause ≠ .unfinished) :
    ∃ before rest, source = before ++ rest ∧ e.position.Behind before ∧ Viable before ∧
      (∀ t, e.cause = .unexpected t → t.text <+: rest ∧ ¬ Viable (before ++ t.text)) ∧
      ∀ c, e.cause = .noToken c → rest.head? = some c := by
  obtain ⟨fault, hread, rfl⟩ := exists_fault h
  have hhalts : Halts [] .between source fault := Statement.halts_of_readFrom rfl hread
  cases hhalts with
  | @noToken ls m gap rest hls hgap hrun hne =>
    have hsource : source = textOf ls ++ gap ++ rest := by
      rw [hls.append_eq, List.append_assoc]
    refine ⟨textOf ls ++ gap, rest, hsource, GrammarFault.toError_behind hsource,
      viable_of_lexes hls hgap hrun, fun t ht => ?_, fun c hc => ?_⟩
    · cases ht
    · obtain ⟨d, r, rfl⟩ := List.exists_cons_of_ne_nil hne
      cases hc
      rfl
  | @unexpected ls m l rest hls hrun hstep =>
    obtain ⟨s, hbefore, hl⟩ := Lexes.append_iff.1 hls
    obtain ⟨v, rfl, hgap, htaken⟩ := Lexes.singleton_iff.1 hl
    have hsource : source = textOf ls ++ l.gap ++ (l.token.text ++ rest) := by
      rw [hbefore.append_eq, htaken.append, List.append_assoc]
    refine ⟨textOf ls ++ l.gap, l.token.text ++ rest, hsource,
      GrammarFault.toError_behind hsource, viable_of_lexes hbefore hgap hrun, fun t ht => ?_,
      fun c hc => ?_⟩
    · cases ht
      have hnot := not_viable_of_refused hls hrun hstep
      have htext : textOf (ls ++ [l]) = textOf ls ++ l.gap ++ l.token.text := by
        simp [Lexeme.text]
      rw [htext] at hnot
      exact ⟨List.prefix_append _ rest, hnot⟩
    · cases hc
  | unfinished last => exact absurd rfl hcause

/-- A closing brace on the second line that closes nothing. -/
theorem parse_first_hopeless_brace :
    let source : Text := "a \x7b\x7d\n\x7d".toList
    parse source = .error (.grammar ⟨.unexpected .closeBrace, ⟨2, 1⟩⟩) ∧
      ∃ before rest, source = before ++ rest ∧ Position.Behind ⟨2, 1⟩ before ∧ Viable before ∧
        ['}'] <+: rest ∧ ¬ Viable (before ++ ['}']) := by
  intro source
  have hparse : parse source = .error (.grammar ⟨.unexpected .closeBrace, ⟨2, 1⟩⟩) := by
    decide +kernel
  obtain ⟨before, rest, hsource, hposition, hviable, htoken, -⟩ :=
    parse_first_hopeless hparse (by decide)
  obtain ⟨htext, hnot⟩ := htoken .closeBrace rfl
  exact ⟨hparse, before, rest, hsource, hposition, hviable, htext, hnot⟩

end Stylesheet

end StylePrune
