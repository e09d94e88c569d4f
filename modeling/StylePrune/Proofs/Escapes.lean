import StylePrune.Proofs.Tokens
import StylePrune.Selector.Parse

/-!
# Escapes that are not cut short

A text *dangles* when it ends in the first half of an escape: in a backslash that takes the
character behind it along, should there come one. What is read as a selector does not, so it is safe
to put a comma behind it.

* **`Spacing`**, **`Selector.spacing_parse`** — what stands around the parts of a selector.
* **`Text.dangles`**, **`Selector.dangles_of_parse`** — no selector ends in half an escape.
-/

namespace StylePrune

/-! ## Spacing -/

/-- Blanks and complete comments. -/
inductive Spacing : Text → Prop where
  | nil : Spacing []
  | blank {c : Char} {s : Text} (hc : Text.isBlank c = true) (hs : Spacing s) : Spacing (c :: s)
  | comment {body s : Text} (hbody : closeComment body = some (body, [])) (hs : Spacing s) :
      Spacing ('/' :: '*' :: body ++ s)

theorem Spacing.append {a b : Text} (ha : Spacing a) (hb : Spacing b) : Spacing (a ++ b) := by
  induction ha with
  | nil => exact hb
  | blank hc _ ih => exact .blank hc ih
  | comment hbody _ ih =>
    rw [List.append_assoc]
    exact .comment hbody ih

theorem spacing_takeSpacing (s : Text) : Spacing (takeSpacing s).1 := by
  fun_induction takeSpacing s with
  | case1 | case3 | case5 => exact .nil
  | case2 rest body rest' hbody spacing behind heq ih =>
    rw [heq] at ih
    exact .comment (closeComment_self hbody) ih
  | case4 c rest _ hc spacing behind heq ih =>
    rw [heq] at ih
    exact .blank hc ih

/-- A combinator without a symbol is spacing. -/
theorem Combinator.spacing_read {s : Text} (h : (read s).1.symbol = []) :
    Spacing (read s).1.raw := by
  rw [raw, h, List.append_nil]
  exact (spacing_takeSpacing _).append (spacing_takeSpacing _)

namespace Selector

theorem spacing_takeLead (text : Text) : Spacing (takeLead text).1 := by
  unfold takeLead
  split
  rename_i combinator behind heq
  split
  · rename_i hsymbol
    have hspacing := Combinator.spacing_read (s := text)
    rw [heq] at hspacing
    exact hspacing (List.isEmpty_iff.1 hsymbol)
  · exact .nil

theorem spacing_parseParts {text s after : Text} {parts : List Part}
    (h : parseParts text s = .ok (parts, after)) : Spacing after := by
  fun_induction parseParts text s generalizing parts after with
  | case1 =>
    cases h
    exact .nil
  | case2 => cases h
  | case3 c rest combinator behind hc hr part rest' hp ih =>
    obtain ⟨ps, hps, -⟩ := consPart_eq_ok_iff.1 h
    exact ih hps
  | case4 c rest combinator behind hc hr hend =>
    cases h
    have hspacing := Combinator.spacing_read (s := c :: rest)
    rw [hc] at hspacing
    rw [Bool.and_eq_true] at hend
    exact hspacing (List.isEmpty_iff.1 hend.1)
  | case5 c rest combinator behind hc hr hend ih =>
    obtain ⟨ps, hps, -⟩ := consPart_eq_ok_iff.1 h
    exact ih hps

/-- Only spacing stands around the parts of a selector. -/
theorem spacing_parse {text : Text} {s : Selector} (h : parse text = .ok s) :
    Spacing s.before ∧ Spacing s.after := by
  unfold parse at h
  split at h
  · cases h
  · cases h
  · rename_i parts after _ hparts
    cases h
    exact ⟨spacing_takeLead text, spacing_parseParts hparts⟩

end Selector

/-! ## Escapes that are not cut short -/

namespace Text

/-- Whether a text ends in a backslash that could escape a character behind it. -/
def dangles (s : Text) : Bool := s.foldl (fun escaping c => !escaping && c == '\\') false

variable {a b s : Text} {c : Char}

theorem dangles_append (h : dangles a = false) : dangles (a ++ b) = dangles b := by
  unfold dangles at h ⊢
  rw [List.foldl_append, h]

theorem dangles_append_eq_false (ha : dangles a = false) (hb : dangles b = false) :
    dangles (a ++ b) = false :=
  (dangles_append ha).trans hb

/-- The last character decides unless it is a backslash. -/
theorem dangles_concat (hc : c ≠ '\\') (s : Text) : dangles (s ++ [c]) = false := by
  simp [dangles, hc]

theorem dangles_cons (hc : c ≠ '\\') (s : Text) : dangles (c :: s) = dangles s := by
  have hstep : (c == '\\') = false := by simpa using hc
  simp [dangles, hstep]

theorem dangles_escape (c : Char) (s : Text) : dangles ('\\' :: c :: s) = dangles s := rfl

theorem dangles_of_not_mem (h : '\\' ∉ s) : dangles s = false := by
  induction s with
  | nil => rfl
  | cons c s ih =>
    rw [List.mem_cons, not_or] at h
    exact (dangles_cons (Ne.symm h.1) s).trans (ih h.2)

end Text

open Text

/-! ### What is closed

Comments, strings and groups end in the character that closes them. -/

theorem closeComment_last {s body rest : Text} (h : closeComment s = some (body, rest)) :
    ∃ b, body = b ++ ['/'] := by
  fun_induction closeComment s generalizing body rest with
  | case1 => cases h
  | case2 r =>
    cases h
    exact ⟨['*'], rfl⟩
  | case3 c r _ ih =>
    obtain ⟨⟨b, t⟩, hb, heq⟩ := Option.map_eq_some_iff.1 h
    cases heq
    obtain ⟨u, rfl⟩ := ih hb
    exact ⟨c :: u, rfl⟩

theorem closeString_last {multiline : Bool} {quote : Char} {s body rest : Text}
    (h : closeString multiline quote s = some (body, rest)) : ∃ b, body = b ++ [quote] := by
  fun_induction closeString multiline quote s generalizing body rest with
  | case1 => cases h
  | case2 c r ih =>
    obtain ⟨⟨b, t⟩, hb, heq⟩ := Option.map_eq_some_iff.1 h
    cases heq
    obtain ⟨u, rfl⟩ := ih hb
    exact ⟨'\\' :: c :: u, rfl⟩
  | case3 c r _ hq =>
    cases h
    rw [beq_iff_eq] at hq
    exact ⟨[], by rw [hq]; rfl⟩
  | case4 => cases h
  | case5 c r _ _ _ ih =>
    obtain ⟨⟨b, t⟩, hb, heq⟩ := Option.map_eq_some_iff.1 h
    cases heq
    obtain ⟨u, rfl⟩ := ih hb
    exact ⟨c :: u, rfl⟩

theorem closeGroup_last {awaited : Char} {outer : List Char} {s group rest : Text}
    (h : closeGroup awaited outer s = .ok (group, rest)) :
    ∃ b c, group = b ++ [c] ∧ (c = ')' ∨ c = ']') := by
  fun_induction closeGroup awaited outer s generalizing group with
  | case1 | case2 | case7 => simp at h
  | case5 awaited s c r hs hc hb ha =>
    cases h
    exact ⟨[], c, rfl, by simpa using hb⟩
  | case3 _ _ _ _ _ _ ih | case4 _ _ _ _ _ _ _ _ ih | case6 _ _ _ _ _ _ _ _ _ _ ih
  | case8 _ _ _ _ _ _ _ _ ih =>
    obtain ⟨u, hu, rfl⟩ := Text.prepend_eq_ok_iff.1 h
    obtain ⟨b, d, rfl, hd⟩ := ih hu
    exact ⟨_, d, (List.append_assoc _ b [d]).symm, hd⟩

theorem dangles_of_closeGroup {awaited : Char} {outer : List Char} {s group rest : Text}
    (h : closeGroup awaited outer s = .ok (group, rest)) : dangles group = false := by
  obtain ⟨b, c, rfl, hc⟩ := closeGroup_last h
  refine dangles_concat ?_ b
  rcases hc with rfl | rfl <;> decide

theorem Spacing.dangles {s : Text} (h : Spacing s) : Text.dangles s = false := by
  induction h with
  | nil => rfl
  | @blank c s hc _ ih =>
    refine (dangles_cons ?_ s).trans ih
    rintro rfl
    cases hc
  | comment hbody _ ih =>
    obtain ⟨b, rfl⟩ := closeComment_last hbody
    exact dangles_append_eq_false (dangles_concat (by decide) ('/' :: '*' :: b)) ih

/-! ### What is read as a part -/

namespace Identifier

theorem of_mem_takeTerminator {p : Char → Bool} {c : Char} {s : Text}
    (h : c ∈ (takeTerminator p s).1) : p c = true := by
  unfold takeTerminator at h
  split at h
  · cases h
  · split at h
    · rename_i hd
      cases h
      exact hd
    · cases h

/-- What an atom is that was read. -/
inductive Atom.Formed : Atom → Prop where
  | plain {c : Char} (hname : isNameChar c = true) : Formed (.plain c)
  | code {d : Char} {digits : Text} {terminator : Option Char}
      (hdigits : ∀ c ∈ d :: digits, isHexDigit c = true)
      (hblank : ∀ c ∈ terminator, Text.isBlank c = true) : Formed (.code (d :: digits) terminator)
  | escaped {c : Char} (hhex : isHexDigit c = false) (hline : Text.isLineEnd c = false) :
      Formed (.escaped c)

theorem Atom.formed_of_read? {s rest : Text} {a : Atom} (h : Atom.read? s = some (a, rest)) :
    a.Formed := by
  unfold Atom.read? at h
  split at h
  · cases h
  · rename_i c r
    split at h
    · rename_i hhex
      cases h
      have hrun : ∀ x ∈ hexRun (c :: r), isHexDigit x = true := fun x => List.mem_takeWhile_imp
      obtain ⟨d, digits, hdigits⟩ :=
        List.exists_cons_of_ne_nil (List.ne_nil_of_length_pos (hexRun_length_pos r hhex))
      rw [hdigits] at hrun ⊢
      exact .code hrun fun x => of_mem_takeTerminator
    · rename_i hhex
      split at h
      · cases h
      · rename_i hline
        cases h
        exact .escaped (by simpa using hhex) (by simpa using hline)
  · split at h
    · rename_i hname
      cases h
      exact .plain hname
    · cases h

theorem Atom.Formed.dangles {a : Atom} (h : a.Formed) : Text.dangles a.text = false := by
  cases h with
  | @plain c hname =>
    refine dangles_concat ?_ []
    rintro rfl
    cases hname
  | @code d digits terminator hdigits hblank =>
    -- the backslash takes the first digit along, and no backslash follows
    refine (dangles_escape d _).trans (dangles_of_not_mem fun hmem => ?_)
    rcases List.mem_append.1 hmem with hmem | hmem
    · cases hdigits _ (List.mem_cons_of_mem d hmem)
    · cases hblank _ (Option.mem_toList.1 hmem)
  | escaped => rfl

theorem dangles_read (s : Text) : dangles (read s).1 = false := by
  unfold read
  fun_induction atoms s with
  | case1 => rfl
  | case2 s a rest h as rest' heq ih =>
    rw [heq] at ih
    exact dangles_append_eq_false (Atom.formed_of_read? h).dangles ih

end Identifier

theorem dangles_of_readName? {s name rest : Text} (h : readName? s = some (name, rest)) :
    dangles name = false := by
  have hread := Identifier.dangles_read s
  unfold readName? at h
  split at h
  · cases h
  · rename_i heq
    cases h
    rwa [heq] at hread

theorem dangles_of_readTypeName? {s name rest : Text} (h : readTypeName? s = some (name, rest)) :
    dangles name = false := by
  unfold readTypeName? at h
  split at h
  · cases h
    rfl
  · exact dangles_of_readName? h

theorem dangles_of_readNamespace? {s space rest : Text}
    (h : readNamespace? s = some (space, rest)) : dangles space = false := by
  unfold readNamespace? at h
  split at h
  · cases h
  · cases h
    exact dangles_concat (by decide) _
  · cases h

namespace Part

theorem dangles_of_readMarked {kind : PartKind} {mark : Char} {s rest : Text} {p : Part}
    (hmark : mark ≠ '\\') (h : readMarked kind mark s = .ok (p, rest)) :
    dangles p.raw = false := by
  obtain ⟨name, hname, rfl⟩ := exists_of_readMarked h
  exact (dangles_cons hmark _).trans (dangles_of_readName? hname)

theorem dangles_of_readAttribute {s rest : Text} {p : Part}
    (h : readAttribute s = .ok (p, rest)) : dangles p.raw = false := by
  obtain ⟨group, name, hgroup, -, rfl⟩ := exists_of_readAttribute h
  exact (dangles_cons (by decide) group).trans (dangles_of_closeGroup hgroup)

theorem dangles_of_readPseudo {kind : PartKind} {colons s rest : Text} {p : Part}
    (hcolons : dangles colons = false) (h : readPseudo kind colons s = .ok (p, rest)) :
    dangles p.raw = false := by
  obtain ⟨name, argument, hname, rfl, hargument⟩ := exists_of_readPseudo h
  refine dangles_append_eq_false
    (dangles_append_eq_false hcolons (dangles_of_readName? hname)) ?_
  rcases hargument with rfl | ⟨t, group, hgroup, rfl⟩
  · rfl
  · exact (dangles_cons (by decide) group).trans (dangles_of_closeGroup hgroup)

theorem dangles_of_readType {c : Char} {s rest : Text} {p : Part}
    (h : readType c s = .ok (p, rest)) : dangles p.raw = false := by
  obtain ⟨space, name, hqualified, rfl⟩ := exists_of_readType h
  rcases readQualified?_eq_some hqualified with ⟨t, hspace, hname⟩ | ⟨rfl, hname⟩
  · exact dangles_append_eq_false (dangles_of_readNamespace? hspace)
      (dangles_of_readTypeName? hname)
  · exact dangles_of_readTypeName? hname

theorem dangles_of_read {c : Char} {s rest : Text} {p : Part} (h : read c s = .ok (p, rest)) :
    dangles p.raw = false := by
  unfold read at h
  split at h
  · rename_i hc
    exact dangles_of_readMarked (by rw [hc]; decide) h
  · split at h
    · rename_i hc
      exact dangles_of_readMarked (by rw [hc]; decide) h
    · split at h
      · exact dangles_of_readAttribute h
      · split at h
        · split at h
          · exact dangles_of_readPseudo rfl h
          · exact dangles_of_readPseudo rfl h
        · split at h
          · cases h
            rfl
          · exact dangles_of_readType h

end Part

theorem dangles_takeSymbol (s : Text) : dangles (takeSymbol s).1 = false := by
  unfold takeSymbol
  split
  · rfl
  · split
    · exact dangles_concat (by decide) _
    · rfl
  · rename_i c r _ _
    split
    · rename_i hc
      refine dangles_concat ?_ []
      rintro rfl
      cases hc
    · rfl
  · rfl

theorem Combinator.dangles_read (s : Text) : dangles (read s).1.raw = false :=
  dangles_append_eq_false
    (dangles_append_eq_false (spacing_takeSpacing _).dangles (dangles_takeSymbol _))
    (spacing_takeSpacing _).dangles

namespace Selector

theorem dangles_of_parseParts {text s after : Text} {parts : List Part}
    (h : parseParts text s = .ok (parts, after)) : dangles s = false := by
  fun_induction parseParts text s generalizing parts after with
  | case1 => rfl
  | case2 => cases h
  | case3 c rest combinator behind hc hr part rest' hp ih =>
    obtain ⟨ps, hps, -⟩ := consPart_eq_ok_iff.1 h
    rw [Part.read_append hp]
    exact dangles_append_eq_false (Part.dangles_of_read hp) (ih hps)
  | case4 c rest combinator behind hc hr hend =>
    have hread := Combinator.dangles_read (c :: rest)
    have happ := Combinator.read_append (c :: rest)
    rw [Bool.and_eq_true, List.isEmpty_iff, List.isEmpty_iff] at hend
    rw [hc, hend.2, List.append_nil] at happ
    rwa [hc, happ] at hread
  | case5 c rest combinator behind hc hr hend ih =>
    obtain ⟨ps, hps, -⟩ := consPart_eq_ok_iff.1 h
    have hread := Combinator.dangles_read (c :: rest)
    rw [← Combinator.read_append (c :: rest), hc]
    rw [hc] at hread
    exact dangles_append_eq_false hread (ih hps)

/-- What is read as a selector does not end in a backslash with nothing behind it. -/
theorem dangles_of_parse {text : Text} {s : Selector} (h : parse text = .ok s) :
    dangles text = false := by
  rw [← takeLead_append text]
  refine dangles_append_eq_false (spacing_takeLead text).dangles ?_
  unfold parse at h
  split at h
  · cases h
  · cases h
  · rename_i hparts
    exact dangles_of_parseParts hparts

end Selector

end StylePrune
