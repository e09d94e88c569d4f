import Mathlib.Data.List.TakeWhile
import StylePrune.Stylesheet.Parse

/-!
# A stylesheet holds the text it was read from

Reading a stylesheet cuts its text into leading texts, heads, blocks and comments. Here it is shown
that the pieces tile the text: written back as they stand, they are the text again, in the body of
every group too. What stands between the statements is a *gap*, made of blanks, semicolons and
markers.

The written form of a stylesheet takes the spaces away that stand before the first selector of a
rule. So it is the text that was read unless some rule begins with a space, and it is shorter then.

* **`Gap`** — what the reader skips between two statements.
* **`Sheet.Rel`** — two sheets of one shape, with related heads; a traversal that succeeds gives
  such a pair (`Sheet.traverse_eq_ok_iff`), so facts about it are inductions on the pair.
* **`text_joined_of_parse`**, **`gaps_of_parse`** — the tiling and the gaps.
* **`text_eq_joined`**, **`text_length_lt_joined`** — when the written form differs.
-/

namespace StylePrune

namespace Text

/-- A text begins with a space, so that trimming changes it. -/
def SpaceFirst (s : Text) : Prop := ∃ c ∈ s.head?, isSpace c = true

instance (s : Text) : Decidable (SpaceFirst s) :=
  decidable_of_iff (s.head?.any isSpace = true) (by cases s <;> simp [SpaceFirst])

/-- Trimming leaves exactly the texts alone that do not begin with a space. -/
theorem trimStart_eq_self {s : Text} : s.trimStart = s ↔ ¬ SpaceFirst s := by
  simp [trimStart_eq_self_iff, SpaceFirst]

end Text

/-! ## Gaps -/

/-- What the reader skips between two statements: blanks, semicolons and markers. -/
inductive Gap : Text → Prop where
  | nil : Gap []
  | blank {c : Char} {s : Text} (hc : Text.isBlank c = true) (hs : Gap s) : Gap (c :: s)
  | semicolon {s : Text} (hs : Gap s) : Gap (';' :: s)
  | openMarker {s : Text} (hs : Gap s) : Gap ('<' :: '!' :: '-' :: '-' :: s)
  | closeMarker {s : Text} (hs : Gap s) : Gap ('-' :: '-' :: '>' :: s)

theorem Gap.append {a b : Text} (ha : Gap a) (hb : Gap b) : Gap (a ++ b) := by
  induction ha with
  | nil => exact hb
  | blank hc _ ih => exact .blank hc ih
  | semicolon _ ih => exact .semicolon ih
  | openMarker _ ih => exact .openMarker ih
  | closeMarker _ ih => exact .closeMarker ih

theorem Gap.of_blanks {s : Text} (h : ∀ c ∈ s, Text.isBlank c = true) : Gap s := by
  induction s with
  | nil => exact .nil
  | cons c s ih =>
    have hs : Gap s := ih fun d hd => h d (List.mem_cons_of_mem c hd)
    exact .blank (h c List.mem_cons_self) hs

/-- There is no token where nothing but blanks is left. -/
theorem nextToken_eq_finished_iff {markers : Bool} {s gap : Text} :
    nextToken markers s = .finished gap ↔ gap = s ∧ ∀ c ∈ s, Text.isBlank c = true := by
  unfold nextToken
  split
  · rename_i hdrop
    rw [List.dropWhile_eq_nil_iff] at hdrop
    rw [NextToken.finished.injEq]
    exact ⟨fun h => ⟨h.symm, hdrop⟩, fun h => h.1.symm⟩
  · rename_i c r hdrop
    have hblank : ¬ ∀ c ∈ s, Text.isBlank c = true := by
      rw [← List.dropWhile_eq_nil_iff, hdrop]
      simp
    split <;> simp [hblank]

/-- What was skipped so far and the blanks before the next token make one gap. -/
theorem Gap.before_token {markers : Bool} {skipped s gap rest : Text} {t : Token}
    (hskip : Gap skipped.reverse) (h : nextToken markers s = .found gap t rest) :
    Gap (skipped.reverse ++ gap) :=
  hskip.append (.of_blanks (nextToken_gap_blank h))

namespace Statement

def leading : Statement → Text
  | .comment leading _ => leading
  | .rule leading _ _ => leading
  | .atRule leading _ _ _ => leading

theorem readRule_leading {leading first s rest : Text} {st : Statement}
    (h : readRule leading first s = .ok (st, rest)) : st.leading = leading := by
  obtain ⟨head, body, rfl, -⟩ := exists_of_readRule h
  rfl

theorem readAtRule_leading {leading keyword s rest : Text} {st : Statement}
    (h : readAtRule leading keyword s = .ok (st, rest)) : st.leading = leading := by
  obtain ⟨head, body, rfl, -⟩ := exists_of_readAtRule h
  rfl

/-- What leads the statements, and what trails the last of them, are gaps. The text skipped so far
is the invariant: it is a gap whenever the reader goes on. -/
theorem readFrom_gap {skipped s trailing : Text} {sts : List Statement}
    (h : readFrom skipped s = .ok (sts, trailing)) (hskip : Gap skipped.reverse) :
    (∀ st ∈ sts, Gap st.leading) ∧ Gap trailing := by
  fun_induction readFrom skipped s generalizing sts trailing with
  | case1 skipped s gap hs =>
    simp only [Except.ok.injEq, Prod.mk.injEq] at h
    obtain ⟨rfl, rfl⟩ := h
    obtain ⟨rfl, hblank⟩ := nextToken_eq_finished_iff.1 hs
    exact ⟨by simp, hskip.append (.of_blanks hblank)⟩
  | case2 | case7 | case8 | case9 | case11 => simp at h
  | case3 skipped s gap t rest hs ih =>
    obtain ⟨sts', hsts, rfl⟩ := cons_eq_ok_iff.1 h
    have hrest := ih hsts .nil
    exact ⟨List.forall_mem_cons.2 ⟨hskip.before_token hs, hrest.1⟩, hrest.2⟩
  | case4 skipped s gap rest hs ih =>
    refine ih h ?_
    rw [List.reverse_append, List.reverse_reverse, ← List.append_assoc]
    exact (hskip.before_token hs).append (.semicolon .nil)
  | case5 skipped s gap rest hs ih =>
    refine ih h ?_
    rw [List.reverse_append, List.reverse_reverse, ← List.append_assoc]
    exact (hskip.before_token hs).append (.openMarker .nil)
  | case6 skipped s gap rest hs ih =>
    refine ih h ?_
    rw [List.reverse_append, List.reverse_reverse, ← List.append_assoc]
    exact (hskip.before_token hs).append (.closeMarker .nil)
  | case10 skipped s gap t rest hs st rest' hst ih =>
    obtain ⟨sts', hsts, rfl⟩ := cons_eq_ok_iff.1 h
    have hrest := ih hsts .nil
    have hst' : Gap st.leading := by
      rw [readAtRule_leading hst]
      exact hskip.before_token hs
    exact ⟨List.forall_mem_cons.2 ⟨hst', hrest.1⟩, hrest.2⟩
  | case12 skipped s gap token rest _ _ _ _ _ _ _ hs st rest' hst ih =>
    obtain ⟨sts', hsts, rfl⟩ := cons_eq_ok_iff.1 h
    have hrest := ih hsts .nil
    have hst' : Gap st.leading := by
      rw [readRule_leading hst]
      exact hskip.before_token hs
    exact ⟨List.forall_mem_cons.2 ⟨hst', hrest.1⟩, hrest.2⟩

/-- A text that is read as statements is read from its start on. -/
theorem readAll_eq_ok_iff {source trailing : Text} {sts : List Statement} :
    readAll source = .ok (sts, trailing) ↔ readFrom [] source = .ok (sts, trailing) := by
  unfold readAll
  cases readFrom [] source with
  | error fault => simp
  | ok found => simp

end Statement

/-! ## Sheets of one shape

A traversal that succeeds leaves the shape of a sheet and everything but its heads as they are. The
relation says so node by node, and what follows from a traversal is then an induction on it. -/

namespace Sheet

variable {σ τ : Type}

theorem bind_eq_ok_iff {ε α β : Type} {x : Except ε α} {f : α → Except ε β} {b : β} :
    (x >>= f) = .ok b ↔ ∃ a, x = .ok a ∧ f a = .ok b := by
  cases x with
  | error e => simp [bind, Except.bind]
  | ok a => simp [bind, Except.bind]

/-- Two sheets agree in everything but their heads, and the heads are related in pairs. -/
inductive Rel (r : σ → τ → Prop) : Sheet σ → Sheet τ → Prop where
  | done (trailing : Text) : Rel r (.done trailing) (.done trailing)
  | rule (leading : Text) {head : σ} {head' : τ} (block : Text) {next : Sheet σ} {next' : Sheet τ}
      (hhead : r head head') (hnext : Rel r next next') :
      Rel r (.rule leading head block next) (.rule leading head' block next')
  | atRule (leading keyword prelude : Text) (block : Option Text) {next : Sheet σ}
      {next' : Sheet τ} (hnext : Rel r next next') :
      Rel r (.atRule leading keyword prelude block next)
        (.atRule leading keyword prelude block next')
  | group (leading keyword prelude : Text) (hidden : Option Text) {body next : Sheet σ}
      {body' next' : Sheet τ} (hbody : Rel r body body') (hnext : Rel r next next') :
      Rel r (.group leading keyword prelude hidden body next)
        (.group leading keyword prelude hidden body' next')
  | comment (leading t : Text) {next : Sheet σ} {next' : Sheet τ} (hnext : Rel r next next') :
      Rel r (.comment leading t next) (.comment leading t next')
  | unknown (value : Text) {next : Sheet σ} {next' : Sheet τ} (hnext : Rel r next next') :
      Rel r (.unknown value next) (.unknown value next')

/-- A traversal succeeds exactly with a sheet of the same shape whose heads are what the heads are
replaced with. -/
theorem traverse_eq_ok_iff {ε : Type} {f : σ → Except ε τ} {s : Sheet σ} {t : Sheet τ} :
    s.traverse f = .ok t ↔ Rel (fun a b => f a = .ok b) s t := by
  constructor
  · intro h
    induction s generalizing t with
    | done trailing =>
      simp only [traverse, Except.ok.injEq] at h
      subst h
      exact .done trailing
    | rule leading head block next ih =>
      obtain ⟨b, hb, h⟩ := bind_eq_ok_iff.1 h
      obtain ⟨n, hn, h⟩ := bind_eq_ok_iff.1 h
      cases h
      exact .rule leading block hb (ih hn)
    | atRule leading keyword prelude block next ih =>
      obtain ⟨n, hn, h⟩ := bind_eq_ok_iff.1 h
      cases h
      exact .atRule leading keyword prelude block (ih hn)
    | group leading keyword prelude hidden body next ihb ih =>
      obtain ⟨b, hb, h⟩ := bind_eq_ok_iff.1 h
      obtain ⟨n, hn, h⟩ := bind_eq_ok_iff.1 h
      cases h
      exact .group leading keyword prelude hidden (ihb hb) (ih hn)
    | comment leading text next ih =>
      obtain ⟨n, hn, h⟩ := bind_eq_ok_iff.1 h
      cases h
      exact .comment leading text (ih hn)
    | unknown value next ih =>
      obtain ⟨n, hn, h⟩ := bind_eq_ok_iff.1 h
      cases h
      exact .unknown value (ih hn)
  · intro h
    induction h with
    | done => rfl
    | rule leading block hhead _ ih => simp only [traverse, hhead, ih]; rfl
    | atRule leading keyword prelude block _ ih => simp only [traverse, ih]; rfl
    | group leading keyword prelude hidden _ _ ihb ih => simp only [traverse, ihb, ih]; rfl
    | comment leading t _ ih => simp only [traverse, ih]; rfl
    | unknown value _ ih => simp only [traverse, ih]; rfl

/-- The texts around the nodes of a sheet, groups included: what leads each node, and what stands
behind the last one of the sheet and of every body. -/
def gaps : Sheet σ → List Text
  | .done trailing => [trailing]
  | .rule leading _ _ next => leading :: next.gaps
  | .atRule leading _ _ _ next => leading :: next.gaps
  | .group leading _ _ _ body next => leading :: (body.gaps ++ next.gaps)
  | .comment leading _ next => leading :: next.gaps
  | .unknown _ next => next.gaps

namespace Rel

variable {r : σ → τ → Prop} {s : Sheet σ} {t : Sheet τ}

theorem gaps_eq (h : Rel r s t) : s.gaps = t.gaps := by
  induction h with
  | done => rfl
  | rule _ _ _ _ ih => simp only [gaps, ih]
  | atRule _ _ _ _ _ ih => simp only [gaps, ih]
  | group _ _ _ _ _ _ ihb ih => simp only [gaps, ihb, ih]
  | comment _ _ _ ih => simp only [gaps, ih]
  | unknown _ _ ih => simp only [gaps, ih]

theorem firstUnknown?_eq (h : Rel r s t) : s.firstUnknown? = t.firstUnknown? := by
  induction h with
  | done => rfl
  | rule _ _ _ _ ih => simpa only [firstUnknown?] using ih
  | atRule _ _ _ _ _ ih => simpa only [firstUnknown?] using ih
  | group _ _ _ _ _ _ ihb ih => simp only [firstUnknown?, ihb, ih]
  | comment _ _ _ ih => simpa only [firstUnknown?] using ih
  | unknown => rfl

/-- Sheets of one shape are written alike when related heads are. -/
theorem text_eq {f : σ → Text} {g : τ → Text} (h : Rel r s t) (hfg : ∀ a b, r a b → f a = g b) :
    s.text f = t.text g := by
  induction h with
  | done => rfl
  | rule _ _ hhead _ ih => simp only [text, ih, hfg _ _ hhead]
  | atRule _ _ _ _ _ ih => simp only [text, ih]
  | group _ _ _ _ _ _ ihb ih => simp only [text, ihb, ih]
  | comment _ _ _ ih => simp only [text, ih]
  | unknown _ _ ih => simpa only [text] using ih

end Rel

/-- Heads that are written alike give sheets that are written alike. -/
theorem text_congr {f g : σ → Text} {s : Sheet σ} (h : ∀ a ∈ s.heads, f a = g a) :
    s.text f = s.text g := by
  induction s with
  | done => rfl
  | rule leading head block next ih =>
    obtain ⟨hhead, hnext⟩ := List.forall_mem_cons.1 h
    simp only [text, hhead, ih hnext]
  | atRule leading keyword prelude block next ih => simp only [text, ih h]
  | group leading keyword prelude hidden body next ihb ih =>
    obtain ⟨hbody, hnext⟩ := List.forall_mem_append.1 h
    simp only [text, ihb hbody, ih hnext]
  | comment leading t next ih => simp only [text, ih h]
  | unknown value next ih => exact ih h

/-- A sheet is no longer when its heads are written no longer. -/
theorem text_length_le {f g : σ → Text} {s : Sheet σ}
    (h : ∀ a ∈ s.heads, (f a).length ≤ (g a).length) :
    (s.text f).length ≤ (s.text g).length := by
  induction s with
  | done => exact le_rfl
  | rule leading head block next ih =>
    obtain ⟨hhead, hnext⟩ := List.forall_mem_cons.1 h
    have := ih hnext
    simp only [text, List.length_append]
    omega
  | atRule leading keyword prelude block next ih =>
    have := ih h
    simp only [text, List.length_append]
    omega
  | group leading keyword prelude hidden body next ihb ih =>
    obtain ⟨hbody, hnext⟩ := List.forall_mem_append.1 h
    have := ihb hbody
    have := ih hnext
    simp only [text, List.length_append, List.length_cons]
    omega
  | comment leading t next ih =>
    have := ih h
    simp only [text, List.length_append]
    omega
  | unknown value next ih => exact ih h

/-- A sheet is shorter when its heads are written no longer and one of them is written shorter. -/
theorem text_length_lt {f g : σ → Text} {s : Sheet σ}
    (h : ∀ a ∈ s.heads, (f a).length ≤ (g a).length)
    (hlt : ∃ a ∈ s.heads, (f a).length < (g a).length) :
    (s.text f).length < (s.text g).length := by
  induction s with
  | done => simp [heads] at hlt
  | rule leading head block next ih =>
    obtain ⟨hhead, hnext⟩ := List.forall_mem_cons.1 h
    have hle := text_length_le hnext
    obtain ⟨a, ha, hlt⟩ := hlt
    simp only [text, List.length_append]
    -- the head that is written shorter is the first one, or one behind it
    rcases List.mem_cons.1 ha with rfl | ha
    · omega
    · have := ih hnext ⟨a, ha, hlt⟩
      omega
  | atRule leading keyword prelude block next ih =>
    have := ih h hlt
    simp only [text, List.length_append]
    omega
  | group leading keyword prelude hidden body next ihb ih =>
    obtain ⟨hbody, hnext⟩ := List.forall_mem_append.1 h
    have hble := text_length_le hbody
    have hnle := text_length_le hnext
    obtain ⟨a, ha, hlt⟩ := hlt
    simp only [text, List.length_append, List.length_cons]
    rcases List.mem_append.1 ha with ha | ha
    · have := ihb hbody ⟨a, ha, hlt⟩
      omega
    · have := ih hnext ⟨a, ha, hlt⟩
      omega
  | comment leading t next ih =>
    have := ih h hlt
    simp only [text, List.length_append]
    omega
  | unknown value next ih => exact ih h hlt

end Sheet

/-! ## From statements to the stylesheet -/

namespace Outline

/-- An outline is written as its statements and the text behind them. -/
theorem ofStatements_text (sts : List Statement) (trailing : Text) :
    Sheet.text id (ofStatements sts trailing) = sts.flatMap Statement.text ++ trailing := by
  fun_induction ofStatements sts trailing with
  | case1 => rfl
  | case2 trailing leading t sts ih => simp [Sheet.text, Statement.text, ih]
  | case3 trailing leading head body sts ih => simp [Sheet.text, Statement.text, ih]
  | case4 trailing leading keyword prelude sts ih => simp [Sheet.text, Statement.text, ih]
  | case5 trailing leading keyword prelude body sts _ inner innerTrailing hbody ihb ih =>
    -- the body is written as its statements, which make up the text between the braces
    have hinner := Statement.readAll_append hbody
    simp [Sheet.text, Statement.text, Statement.braced, ih, ihb, hinner]
  | case6 trailing leading keyword prelude body sts _ _ _ ih =>
    simp [Sheet.text, Statement.text, ih]
  | case7 trailing leading keyword prelude body sts _ ih => simp [Sheet.text, Statement.text, ih]

/-- The gaps of an outline are those of its statements and of the bodies of its groups. -/
theorem ofStatements_gaps {sts : List Statement} {trailing : Text}
    (hsts : ∀ st ∈ sts, Gap st.leading) (htrailing : Gap trailing) :
    ∀ t ∈ (ofStatements sts trailing).gaps, Gap t := by
  fun_induction ofStatements sts trailing with
  | case1 trailing => simpa [Sheet.gaps] using htrailing
  | case2 trailing leading t sts ih | case3 trailing leading t _ sts ih
  | case4 trailing leading t _ sts ih | case6 trailing leading t _ _ sts _ _ _ ih
  | case7 trailing leading t _ _ sts _ ih =>
    obtain ⟨hst, hsts⟩ := List.forall_mem_cons.1 hsts
    exact List.forall_mem_cons.2 ⟨hst, ih hsts htrailing⟩
  | case5 trailing leading keyword prelude body sts _ inner innerTrailing hbody ihb ih =>
    obtain ⟨hst, hsts⟩ := List.forall_mem_cons.1 hsts
    have hinner := Statement.readFrom_gap (Statement.readAll_eq_ok_iff.1 hbody) .nil
    exact List.forall_mem_cons.2
      ⟨hst, List.forall_mem_append.2 ⟨ihb hinner.1 hinner.2, ih hsts htrailing⟩⟩

/-- An outline that was read holds nothing but nodes. -/
theorem ofStatements_firstUnknown? (sts : List Statement) (trailing : Text) :
    (ofStatements sts trailing).firstUnknown? = none := by
  fun_induction ofStatements sts trailing with
  | case1 => rfl
  | case5 trailing leading keyword prelude body sts _ inner innerTrailing hbody ihb ih =>
    simp only [Sheet.firstUnknown?, ihb, ih]
  | case2 _ _ _ _ ih | case3 _ _ _ _ _ ih | case4 _ _ _ _ _ ih | case6 _ _ _ _ _ _ _ _ _ ih
  | case7 _ _ _ _ _ _ _ ih => simpa only [Sheet.firstUnknown?] using ih

/-- A text whose structure is read is read as statements. -/
theorem parse_eq_ok_iff {source : Text} {o : Outline} :
    parse source = .ok o ↔
      ∃ sts trailing, Statement.readAll source = .ok (sts, trailing) ∧
        ofStatements sts trailing = o := by
  unfold parse
  cases Statement.readAll source with
  | error e => simp
  | ok found =>
    constructor
    · intro h
      exact ⟨found.1, found.2, rfl, by simpa using h⟩
    · rintro ⟨sts, trailing, hfound, rfl⟩
      cases hfound
      rfl

end Outline

namespace Stylesheet

/-- A text that is read as a stylesheet has an outline whose heads are lists of selectors. -/
theorem parse_eq_ok_iff {source : Text} {s : Stylesheet} :
    parse source = .ok s ↔
      ∃ o, Outline.parse source = .ok o ∧
        Sheet.Rel (fun a b => Selector.parseList a = .ok b) o s := by
  unfold parse
  cases Outline.parse source with
  | error e => simp
  | ok o =>
    simp only [Except.ok.injEq, exists_eq_left', ← Sheet.traverse_eq_ok_iff, ofOutline]
    cases Sheet.traverse Selector.parseList o with
    | error e => simp
    | ok t => simp

theorem prelude_length_le (head : List Selector) :
    (prelude head).length ≤ (Selector.joined head).length :=
  (List.dropWhile_sublist Text.isSpace).length_le

theorem prelude_length_lt {head : List Selector} (h : Text.SpaceFirst (Selector.joined head)) :
    (prelude head).length < (Selector.joined head).length := by
  -- a sublist of the same length would be the whole list
  have hne : prelude head ≠ Selector.joined head := fun heq => Text.trimStart_eq_self.1 heq h
  have hsub : (prelude head).Sublist (Selector.joined head) := List.dropWhile_sublist Text.isSpace
  exact lt_of_le_of_ne hsub.length_le fun hlen => hne (hsub.eq_of_length hlen)

/-- A stylesheet is written as it stands unless a rule begins with a space. -/
theorem text_eq_joined {s : Stylesheet}
    (h : ∀ head ∈ s.heads, ¬ Text.SpaceFirst (Selector.joined head)) :
    s.text = Sheet.text Selector.joined s :=
  Sheet.text_congr fun head hmem => Text.trimStart_eq_self.2 (h head hmem)

/-- A stylesheet is written shorter than it stands when a rule begins with a space. -/
theorem text_length_lt_joined {s : Stylesheet}
    (h : ∃ head ∈ s.heads, Text.SpaceFirst (Selector.joined head)) :
    s.text.length < (Sheet.text Selector.joined s).length := by
  obtain ⟨head, hmem, hspace⟩ := h
  exact Sheet.text_length_lt (fun a _ => prelude_length_le a) ⟨head, hmem, prelude_length_lt hspace⟩

/-- A stylesheet that was read stands as the text it was read from. -/
theorem text_joined_of_parse {source : Text} {s : Stylesheet} (h : parse source = .ok s) :
    Sheet.text Selector.joined s = source := by
  obtain ⟨o, ho, hrel⟩ := parse_eq_ok_iff.1 h
  obtain ⟨sts, trailing, hread, rfl⟩ := Outline.parse_eq_ok_iff.1 ho
  rw [← Statement.readAll_append hread, ← Outline.ofStatements_text]
  exact (hrel.text_eq fun a b hab => (Selector.parseList_joined hab).symm).symm

/-- Only gaps stand around the nodes of a stylesheet that was read. -/
theorem gaps_of_parse {source : Text} {s : Stylesheet} (h : parse source = .ok s) :
    ∀ t ∈ s.gaps, Gap t := by
  obtain ⟨o, ho, hrel⟩ := parse_eq_ok_iff.1 h
  obtain ⟨sts, trailing, hread, rfl⟩ := Outline.parse_eq_ok_iff.1 ho
  have hfrom := Statement.readFrom_gap (Statement.readAll_eq_ok_iff.1 hread) .nil
  rw [← hrel.gaps_eq]
  exact Outline.ofStatements_gaps hfrom.1 hfrom.2

/-- A stylesheet that was read can be written. -/
theorem write_of_parse {source : Text} {s : Stylesheet} (h : parse source = .ok s) :
    s.write = .ok s.text := by
  obtain ⟨o, ho, hrel⟩ := parse_eq_ok_iff.1 h
  obtain ⟨sts, trailing, -, rfl⟩ := Outline.parse_eq_ok_iff.1 ho
  have hnone : s.firstUnknown? = none := by
    rw [← hrel.firstUnknown?_eq, Outline.ofStatements_firstUnknown?]
  simp only [write, hnone]

end Stylesheet

end StylePrune
