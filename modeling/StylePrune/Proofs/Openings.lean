import StylePrune.Proofs.Beginnings
import StylePrune.Proofs.Pruned

/-!
# Written heads

The selectors that are left of a rule are written with the spaces before the first of them trimmed,
and read behind what opens such a head. Trimming and skipping only ever take from the first
selector. If anything is left of it, the head is read again: the rest of the first selector, and the
others as they were.

* **`opening_prelude`** — what opens a written head.
* **`HeadReread`**, **`headReread_prelude`** — what is known of a written head.
-/

namespace StylePrune

open Mode

namespace Selector

variable {s y : Text}

/-! ## What opens a selector -/

/-- No spacing stands in front of what opens a head. -/
theorem takeSpacing_opening (s : Text) : takeSpacing (opening s) = ([], opening s) := by
  fun_induction opening s with
  | case1 rest ih => exact ih
  | case2 rest body rest' hbody ih => exact ih
  | case3 rest hbody =>
    rw [takeSpacing]
    split
    · rename_i heq
      rw [hbody] at heq
      cases heq
    · rfl
  | case4 c rest _ _ hc ih => exact ih
  | case5 c rest _ hcomment hc =>
    rw [takeSpacing.eq_3 _ _ hcomment, if_neg hc]
  | case6 => rw [takeSpacing]

/-- Comments in what is read are closed. -/
theorem not_legible_comment (h : closeComment s = none) : ¬ Legible ('/' :: '*' :: s) := by
  have hspacing : takeSpacing ('/' :: '*' :: s) = ([], '/' :: '*' :: s) := by
    rw [takeSpacing]
    split
    · rename_i heq
      rw [h] at heq
      cases heq
    · rfl
  have hraw : (Combinator.read ('/' :: '*' :: s)).1.raw = [] := by
    have hsymbol : takeSymbol ('/' :: '*' :: s) = ([], '/' :: '*' :: s) := rfl
    simp [Combinator.read, hspacing, hsymbol, Combinator.raw]
  -- the slash is read as the start of a type selector, which has no name
  have hread : Identifier.read ('/' :: '*' :: s) = ([], '/' :: '*' :: s) := read_stop rfl
  have hqualified := readQualified?_name (by decide) hread rfl
  have htype : Part.read '/' ('*' :: s) = Part.readType '/' ('*' :: s) := rfl
  have hfault : Part.read '/' ('*' :: s) = .error (.unexpected '/') := by
    rw [htype, Part.readType, hqualified]
    rfl
  exact not_legible_of_fault hraw hfault

/-- A comma does not open less than it ends. -/
theorem opening_comma (hy : ∀ c ∈ y.head?, c = ',') : opening y = y := by
  cases y with
  | nil => rw [opening]
  | cons c y =>
    have hc := hy c rfl
    subst hc
    exact opening_first rfl (by simp) (by simp)

theorem prefix_comma_iff {l : Text} (hl : ',' ∉ l) (hy : ∀ c ∈ y.head?, c = ',') (s : Text) :
    l <+: s ++ y ↔ l <+: s := by
  cases y with
  | nil => rw [List.append_nil]
  | cons c y =>
    have hc := hy c rfl
    subst hc
    exact prefix_append_iff hl s y

/-- What opens a head is decided before the first comma. -/
theorem opening_append (h : Legible s) (hy : ∀ c ∈ y.head?, c = ',') :
    opening (s ++ y) = opening s ++ y := by
  fun_induction opening s with
  | case1 rest ih =>
    rw [List.cons_append, List.cons_append, List.cons_append, opening_marker,
      ih (h.behind_marker ignoresLead_true)]
  | case2 rest body rest' hbody ih =>
    rw [List.cons_append, List.cons_append, opening_comment (closeComment_append_right hbody y),
      ih ((readsAs_comment ignoresLead_true hbody).1 h)]
  | case3 rest hbody => exact absurd h (not_legible_comment hbody)
  | case4 c rest _ _ hc ih =>
    rw [List.cons_append, opening_blank hc, ih ((readsAs_blank ignoresLead_true hc rest).1 h)]
  | case5 c rest hmarker hcomment hc =>
    have hnoComment : ¬ ['/', '*'] <+: c :: rest ++ y := by
      rw [prefix_comma_iff (by decide) hy]
      rintro ⟨r, heq⟩
      cases heq
      exact hcomment r rfl rfl
    have hnoMarker : ¬ ['-', '-', '>'] <+: c :: rest ++ y := by
      rw [prefix_comma_iff (by decide) hy]
      rintro ⟨r, heq⟩
      cases heq
      exact hmarker r rfl rfl
    exact opening_first (by simpa using hc) hnoComment hnoMarker
  | case6 =>
    rw [List.nil_append, opening_comma hy]

theorem trimStart_append (hy : ∀ c ∈ y.head?, c = ',') (s : Text) :
    (s ++ y).trimStart = s.trimStart ++ y := by
  induction s with
  | nil =>
    rw [List.nil_append, Text.trimStart_eq_self_iff.2]
    · rfl
    · intro c hc
      rw [hy c hc]
      rfl
  | cons c s ih =>
    unfold Text.trimStart at ih ⊢
    rw [List.cons_append, List.dropWhile_cons, List.dropWhile_cons, ih]
    split <;> rfl

end Selector

/-! ## Pieces without their beginnings -/

theorem Text.prepend_inj {ε α : Type} {a : Text} {x y : Except ε (Text × α)}
    (h : Text.prepend a x = Text.prepend a y) : x = y := by
  cases x <;> cases y <;> simp_all [Text.prepend, Prod.ext_iff]

namespace Alone

theorem behind_bare {c : Char} {s : Text} (hother : c ∉ ['\\', '/', ',', '\x22', '\x27'])
    (hcloser : closerOf? c = none) (h : Alone (c :: s)) : Alone s := by
  simp only [List.mem_cons, List.not_mem_nil, or_false, not_or] at hother
  obtain ⟨hback, hslash, hcomma, hdouble, hsingle⟩ := hother
  intro y hy
  have hnext : Item.next (c :: (s ++ y)) = .ok (some (.bare c, s ++ y)) :=
    (Item.Taken.bare hback (by simp [hdouble, hsingle]) fun hc => absurd hc hslash).next
  have hwhole := h y hy
  rw [List.cons_append, splitCommas_bare hnext hcomma hcloser] at hwhole
  refine Text.prepend_inj (a := [c]) ?_
  rw [hwhole, Text.prepend_prepend]
  rfl

theorem behind_comment {rest body rest' : Text} (hbody : closeComment rest = some (body, rest'))
    (h : Alone ('/' :: '*' :: rest)) : Alone rest' := by
  intro y hy
  have hnext : Item.next ('/' :: '*' :: body ++ (rest' ++ y)) =
      .ok (some (.shielded ('/' :: '*' :: body), rest' ++ y)) :=
    (Item.Taken.comment (closeComment_self hbody) (rest' ++ y)).next
  have hwhole := h y hy
  have happ : '/' :: '*' :: rest = '/' :: '*' :: body ++ rest' := by
    rw [closeComment_append hbody]
    rfl
  rw [happ, List.append_assoc, splitCommas_shielded hnext, ← Text.prepend_prepend] at hwhole
  exact Text.prepend_inj hwhole

theorem behind_space {c : Char} {s : Text} (hc : Text.isSpace c = true) (h : Alone (c :: s)) :
    Alone s := by
  have hcloser : closerOf? c = none :=
    closerOf?.eq_3 c (Text.space_ne hc rfl) (Text.space_ne hc rfl)
  refine h.behind_bare ?_ hcloser
  intro hmem
  simp only [List.mem_cons, List.not_mem_nil, or_false] at hmem
  rcases hmem with rfl | rfl | rfl | rfl | rfl <;> cases hc

theorem trimStart {s : Text} (h : Alone s) : Alone s.trimStart :=
  Text.trimStart_induction (P := Alone) behind_space h

theorem opening {s : Text} (h : Alone s) : Alone (opening s) := by
  fun_induction StylePrune.opening s with
  | case1 rest ih =>
    refine ih (((h.behind_bare ?_ rfl).behind_bare ?_ rfl).behind_bare ?_ rfl) <;> decide
  | case2 rest body rest' hbody ih => exact ih (h.behind_comment hbody)
  | case3 => exact h
  | case4 c rest _ _ hc ih => exact ih (h.behind_space (Text.isSpace_of_isBlank hc))
  | case5 => exact h
  | case6 => exact h

end Alone

/-! ## Selectors from what is left -/

namespace Selector

section

variable {s : Text} {selector : Selector}

/-- The parts that are read do not depend on the text that errors are told about. -/
theorem parseParts_text {text after : Text} {parts : List Part}
    (h : parseParts text s = .ok (parts, after)) (text' : Text) :
    parseParts text' s = .ok (parts, after) := by
  fun_induction parseParts text s generalizing parts after with
  | case1 =>
    cases h
    exact parseParts_nil text'
  | case2 => cases h
  | case3 c rest combinator behind hc hr part rest' hp ih =>
    have hraw : (Combinator.read (c :: rest)).1.raw = [] := by
      rw [hc]
      exact hr
    obtain ⟨ps, hps, rfl⟩ := consPart_eq_ok_iff.1 h
    rw [parseParts_part hraw, hp]
    exact consPart_eq_ok_iff.2 ⟨ps, ih hps, rfl⟩
  | case4 c rest combinator behind hc hr hend =>
    have hraw : (Combinator.read (c :: rest)).1.raw ≠ [] := by
      rw [hc]
      exact hr
    cases h
    rw [parseParts_combinator hraw, hc, if_pos hend]
  | case5 c rest combinator behind hc hr hend ih =>
    have hraw : (Combinator.read (c :: rest)).1.raw ≠ [] := by
      rw [hc]
      exact hr
    obtain ⟨ps, hps, rfl⟩ := consPart_eq_ok_iff.1 h
    rw [parseParts_combinator hraw, hc, if_neg hend]
    exact consPart_eq_ok_iff.2 ⟨ps, ih hps, rfl⟩

/-- A text without spacing in front has no lead. -/
theorem takeLead_of_spacing (h : takeSpacing s = ([], s)) : takeLead s = ([], s) := by
  unfold takeLead
  split
  rename_i combinator behind heq
  split
  · rename_i hsymbol
    have happ := takeSymbol_append s
    have hread : (takeSymbol s).1 = [] := by
      simp only [Combinator.read, h, Prod.mk.injEq] at heq
      obtain ⟨rfl, -⟩ := heq
      simpa using hsymbol
    rw [hread, List.nil_append] at happ
    simp only [Combinator.read, h, hread, happ, Prod.mk.injEq] at heq
    obtain ⟨rfl, rfl⟩ := heq
    rfl
  · rfl

/-- Without spacing in front, what is read of a text that is not empty are some parts. -/
theorem parts_ne_nil {text after : Text} {parts : List Part} (hne : s ≠ [])
    (hspacing : takeSpacing s = ([], s)) (h : parseParts text s = .ok (parts, after)) :
    parts ≠ [] := by
  rintro rfl
  obtain ⟨c, rest, rfl⟩ := List.exists_cons_of_ne_nil hne
  by_cases hraw : (Combinator.read (c :: rest)).1.raw = []
  · rw [parseParts_part hraw] at h
    split at h
    · cases h
    · obtain ⟨ps, -, hcons⟩ := consPart_eq_ok_iff.1 h
      cases hcons
  · rw [parseParts_combinator hraw] at h
    split at h
    · rename_i hend
      -- without a symbol the combinator would be empty
      simp only [Bool.and_eq_true, List.isEmpty_iff] at hend
      have happ := Combinator.read_append (c :: rest)
      rw [hend.2, List.append_nil] at happ
      simp only [Combinator.read, hspacing, Combinator.raw] at hend happ
      have hsymbol := takeSymbol_append (c :: rest)
      rw [hend.1, List.nil_append] at hsymbol
      rw [hend.1, hsymbol, hspacing] at happ
      cases happ
    · obtain ⟨ps, -, hcons⟩ := consPart_eq_ok_iff.1 h
      cases hcons

/-- A text is a selector when it is read as parts, is not empty and begins with no spacing. -/
theorem parse_of_readsAs {P : List Part → Prop} (h : ReadsAs P s) (hne : s ≠ [])
    (hspacing : takeSpacing s = ([], s)) :
    ∃ selector, parse s = .ok selector ∧ P selector.parts := by
  obtain ⟨parts, after, hparts, hP⟩ := h
  obtain ⟨part, ps, rfl⟩ := List.exists_cons_of_ne_nil (parts_ne_nil hne hspacing (hparts []))
  refine ⟨⟨part :: ps, [], after⟩, ?_, hP⟩
  unfold parse
  rw [takeLead_of_spacing hspacing, hparts s]

theorem parseParts_of_parse (h : parse s = .ok selector) :
    (takeLead s).1 = selector.before ∧
      ∀ text, parseParts text (takeLead s).2 = .ok (selector.parts, selector.after) := by
  unfold parse at h
  split at h
  · cases h
  · cases h
  · rename_i parts after _ hread
    cases h
    exact ⟨rfl, fun text => parseParts_text hread text⟩

/-- The text of a selector is read as its parts. -/
theorem readsAs_of_parse {P : List Part → Prop} (hP : IgnoresLead P) (h : parse s = .ok selector)
    (hparts : P selector.parts) : ReadsAs P s := by
  have hlead : ReadsAs P (takeLead s).2 := ⟨_, _, (parseParts_of_parse h).2, hparts⟩
  unfold takeLead at hlead
  split at hlead
  rename_i combinator behind heq
  split at hlead
  · -- spacing without a symbol leads the selector: a combinator that is not among the parts
    by_cases hraw : (Combinator.read s).1.raw = []
    · have happ := Combinator.read_append s
      rw [hraw, heq, List.nil_append] at happ
      rwa [← happ]
    · rw [readsAs_combinator_iff hP hraw, heq]
      exact hlead
  · exact hlead

end

/-! ## Heads -/

section

variable {s : Text}

/-- A head that loses the spaces at its start can still be read as a head. -/
theorem flat_trimStart {m : Mode} (hm : m = .fresh ∨ m = .word) (h : Flat m s)
    (hat : s.trimStart.head? ≠ some '@') : Flat .fresh s.trimStart := by
  induction s generalizing m with
  | nil => exact ⟨.fresh, rfl, rfl⟩
  | cons c s ih =>
    by_cases hc : Text.isSpace c = true
    · rw [Text.trimStart_space hc] at hat ⊢
      -- a space that is no blank is read as the start of a chunk
      have hbegin : begin c = some .fresh ∨ begin c = some .word := by
        by_cases hblank : Text.isBlank c = true
        · exact .inl (by simp [begin, hblank])
        · have hother : ∀ d, Text.isSpace d = false → c ≠ d := fun d hd => Text.space_ne hc hd
          exact .inr (by simp [begin, hblank, isStructural, hother '/' rfl, hother '@' rfl,
            hother '\\' rfl, hother '\x22' rfl, hother '\x27' rfl, hother '{' rfl,
            hother '}' rfl, hother ';' rfl])
      have hstep : m.step c = begin c := by
        rcases hm with rfl | rfl
        · rfl
        · exact goOn_eq_begin (Text.space_ne hc rfl)
      obtain ⟨n, hn, hrest⟩ := h
      rw [run_cons, hstep] at hn
      rcases hbegin with heq | heq <;> rw [heq, Option.bind_some] at hn
      · exact ih (.inl rfl) ⟨n, hn, hrest⟩ hat
      · exact ih (.inr rfl) ⟨n, hn, hrest⟩ hat
    · rw [Text.trimStart_other (by simpa using hc)] at hat ⊢
      rcases hm with rfl | rfl
      · exact h
      · exact h.fresh_of_word hat

/-- What opens a selector begins with nothing that is skipped. -/
theorem first_of_opening {c : Char} {r : Text} (h : Legible s) (heq : opening s = c :: r) :
    Text.isBlank c = false ∧ ¬ ['/', '*'] <+: c :: r ∧ ¬ ['-', '-', '>'] <+: c :: r := by
  fun_induction opening s with
  | case1 rest ih => exact ih (h.behind_marker ignoresLead_true) heq
  | case2 rest body rest' hbody ih =>
    exact ih ((readsAs_comment ignoresLead_true hbody).1 h) heq
  | case3 rest hbody => exact absurd h (not_legible_comment hbody)
  | case4 c rest _ _ hc ih => exact ih ((readsAs_blank ignoresLead_true hc rest).1 h) heq
  | case5 d rest hmarker hcomment hc =>
    cases heq
    refine ⟨by simpa using hc, ?_, ?_⟩
    · rintro ⟨u, heq⟩
      cases heq
      exact hcomment u rfl rfl
    · rintro ⟨u, heq⟩
      cases heq
      exact hmarker u rfl rfl
  | case6 => cases heq

/-- What opens a selector can begin a rule. -/
theorem ruleStart_opening (h : Legible s) (hne : opening s ≠ []) : RuleStart (opening s) := by
  -- neither an `@` nor the first character of `<!--` begins anything that is read
  have hstray : ∀ {c : Char} {r : Text}, opening s = c :: r → isOrdinary c = true →
      Identifier.isNameChar c = false → c ≠ '\\' → c ≠ '|' → False := by
    intro c r heq hc hname hback hbar
    have hlegible := h.opening ignoresLead_true
    rw [heq] at hlegible
    exact not_legible hc hname hback hbar hlegible
  obtain ⟨c, r, heq⟩ := List.exists_cons_of_ne_nil hne
  obtain ⟨hblank, hcomment, hmarker⟩ := first_of_opening h heq
  rw [heq]
  refine ⟨⟨c, r, rfl, hblank, ?_⟩, hcomment, ?_⟩
  · rintro rfl
    exact hstray heq rfl rfl (by decide) (by decide)
  · rintro (hopen | hclose)
    · obtain ⟨u, hu⟩ := hopen
      cases hu
      exact hstray heq rfl rfl (by decide) (by decide)
    · exact hmarker hclose

end

/-- What stands behind the first selector of a head. -/
def tail (others : List Selector) : Text := [','].intercalate ([] :: others.map raw)

theorem intercalate_raw (s : Text) (others : List Selector) :
    [','].intercalate (s :: others.map raw) = s ++ tail others := by
  have happ := intercalate_append_cons [','] s [] (others.map raw)
  rwa [List.append_nil] at happ

theorem joined_eq_append_tail (first : Selector) (others : List Selector) :
    joined (first :: others) = first.raw ++ tail others := intercalate_raw first.raw others

theorem tail_head (others : List Selector) : ∀ c ∈ (tail others).head?, c = ',' := by
  cases others <;> simp [tail, List.intercalate]

section

variable {s : Text} (others : List Selector)

/-- No head begins with `@` whose first piece is read as parts. -/
theorem head?_append_tail (h : Legible s) : (s ++ tail others).head? ≠ some '@' := by
  intro hat
  cases s with
  | nil => cases tail_head others '@' hat
  | cons c s =>
    cases hat
    exact not_legible rfl rfl (by decide) (by decide) h

/-- What opens a head whose first piece is read as parts can begin a rule. -/
theorem ruleStart_append_tail (h : Legible s) (hne : opening (s ++ tail others) ≠ []) :
    RuleStart (opening (s ++ tail others)) := by
  rw [opening_append h (tail_head others)] at hne ⊢
  by_cases hnil : opening s = []
  · -- nothing is left of the first piece, and the comma behind it comes first
    rw [hnil, List.nil_append] at hne ⊢
    obtain ⟨c, r, hr⟩ := List.exists_cons_of_ne_nil hne
    have hc : c = ',' := tail_head others c (by rw [hr]; rfl)
    rw [hr, hc]
    exact ⟨⟨',', r, rfl, rfl, by decide⟩, by simp, by simp [MarkerFirst]⟩
  · have hstart := ruleStart_opening h hnil
    cases hr : tail others with
    | nil => rwa [List.append_nil]
    | cons c r =>
      have hc : c = ',' := tail_head others c (by rw [hr]; rfl)
      rw [hc]
      exact (ruleStart_append_iff hnil r).2 hstart

/-- A piece in front of selectors that are read again is read by itself. -/
theorem parseList_append_tail (hs : Alone s)
    (hothers : ∀ o ∈ others, parse o.raw = .ok o ∧ Alone o.raw) :
    parseList (s ++ tail others) = (parse s).map (· :: others) := by
  have hsplit : splitCommas (s ++ tail others) = .ok (s, others.map raw) := by
    rw [← intercalate_raw]
    refine splitCommas_of_alone hs ?_
    simpa using fun o ho => (hothers o ho).2
  have heach : parseEach (others.map raw) = .ok others :=
    parseEach_of_parse fun o ho => (hothers o ho).1
  simp only [parseList, hsplit, parseEach, heach]
  cases parse s <;> rfl

end

end Selector

/-- What is known of a head that is written: it is read as a head, and what opens it is a list of
selectors that are kept, unless that is empty or begins with a comma. -/
structure HeadReread (corpus : Corpus) (head : Text) : Prop where
  written : HeadWritten head
  read : (∃ c ∈ (opening head).head?, c ≠ ',') → ∃ selectors,
    Selector.parseList (opening head) = .ok selectors ∧ ∀ s ∈ selectors, corpus.keeps s = true

namespace Stylesheet

open Selector

section

variable {corpus : Corpus} {first : Selector} (others : List Selector)

theorem prelude_eq_append_tail :
    prelude (first :: others) = first.raw.trimStart ++ tail others := by
  rw [prelude, joined_eq_append_tail, trimStart_append (tail_head others)]

variable (hreads : Reads corpus first.raw)
include hreads

/-- Only the first selector of a head loses anything. -/
theorem opening_prelude :
    opening (prelude (first :: others)) = opening first.raw.trimStart ++ tail others := by
  rw [prelude_eq_append_tail, opening_append hreads.trimStart.legible (tail_head others)]

theorem flat_prelude (hflat : Flat .word (joined (first :: others))) :
    Flat .fresh (prelude (first :: others)) := by
  refine flat_trimStart (.inr rfl) hflat ?_
  show (prelude (first :: others)).head? ≠ some '@'
  rw [prelude_eq_append_tail]
  exact head?_append_tail others hreads.trimStart.legible

theorem ruleStart_prelude (hne : opening (prelude (first :: others)) ≠ []) :
    RuleStart (opening (prelude (first :: others))) := by
  rw [prelude_eq_append_tail] at hne ⊢
  exact ruleStart_append_tail others hreads.trimStart.legible hne

/-- What is left of a head is read as what is left of its first selector, and the others. -/
theorem parseList_opening (hfirst : first.Sound) (hothers : ∀ s ∈ others, s.Sound)
    (hne : opening first.raw.trimStart ≠ []) :
    ∃ selector, parseList (opening (prelude (first :: others))) = .ok (selector :: others) ∧
      corpus.keeps selector = true := by
  obtain ⟨selector, hselector, hkept⟩ := parse_of_readsAs hreads.trimStart.opening hne
    (takeSpacing_opening _)
  refine ⟨selector, ?_, hkept⟩
  rw [opening_prelude others hreads, parseList_append_tail others hfirst.alone.trimStart.opening
    fun o ho => ⟨(hothers o ho).parse, (hothers o ho).alone⟩, hselector]
  rfl

end

theorem headReread_prelude {corpus : Corpus} {head : List Selector} (hne : head ≠ [])
    (hsound : ∀ s ∈ head, s.Sound) (hkeeps : ∀ s ∈ head, corpus.keeps s = true) :
    HeadReread corpus (prelude head) := by
  obtain ⟨first, others, rfl⟩ := List.exists_cons_of_ne_nil hne
  obtain ⟨hfirst, hothers⟩ := List.forall_mem_cons.1 hsound
  obtain ⟨hfirstKept, hothersKept⟩ := List.forall_mem_cons.1 hkeeps
  have hreads : Reads corpus first.raw :=
    readsAs_of_parse ignoresLead_allows hfirst.parse hfirstKept
  have hflat : Flat .word (joined (first :: others)) :=
    flat_joined hfirst.flat fun s hs => (hothers s hs).flat
  refine ⟨⟨flat_prelude others hreads hflat, ruleStart_prelude others hreads⟩, ?_⟩
  rintro ⟨c, hc, hcomma⟩
  -- were nothing left of the first selector, the head would begin with its comma
  have hsome : opening first.raw.trimStart ≠ [] := by
    intro hnil
    rw [opening_prelude others hreads, hnil, List.nil_append] at hc
    exact hcomma (tail_head others c hc)
  obtain ⟨selector, hparse, hkept⟩ := parseList_opening others hreads hfirst hothers hsome
  exact ⟨selector :: others, hparse, List.forall_mem_cons.2 ⟨hkept, hothersKept⟩⟩

end Stylesheet

end StylePrune
