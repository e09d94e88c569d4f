import StylePrune.Proofs.AtomRuns
import StylePrune.Proofs.Preference

/-!
# The names of attribute selectors

A pattern for a whole attribute selector can match it in several ways: a name may stop early, an
escape may be broken off, what is a namespace for one match is a name for another, and behind a name
there may be name characters again. The reader of names (`attributeName?`) tries none of this. Here
the pattern is written down, and the name that it prefers is the one that is read. Where the first
choice comes to no end no other does: what a shorter name leaves of a longer one is no obstacle to
what stands behind it, and no help.

* **`attributeName?_eq_pattern`**: the reader finds the name that the pattern remembers, and none
  where the pattern does not match.
* **`Part.read_attribute_name`**: which identifier of an attribute selector is its name.
-/

namespace StylePrune

/-! ## An attribute selector as a pattern -/

namespace Pattern.Attribute

open Identifier

/-- A backslash with a code point or with another character that does not end a line. -/
def escape : Pattern :=
  seq (char '\\')
    (alt (seq (upTo isHexDigit 5) (opt (one Text.isBlank)))
      (one fun c => !(isHexDigit c || Text.isLineEnd c)))

def atom : Pattern := alt (one isNameChar) escape

def identifier : Pattern := plus atom

/-- A bar that no `=` follows. -/
def bar : Pattern := seq (char '|') (notAhead (char '='))

/-- A namespace with the bar behind it. -/
def space : Pattern := seq (opt (alt identifier (char '*'))) bar

/-- A backslash with any character. -/
def escaped : Pattern := seq (char '\\') (one fun _ => true)

def quotedItem (quote : Char) : Pattern := alt (one (staysOpen true quote)) escaped

def quotedBy (quote : Char) : Pattern :=
  seq (char quote) (seq (star (quotedItem quote)) (char quote))

def isBare (c : Char) : Bool := !(c == ']' || c == '\\' || c == '\x22' || c == '\x27')

/-- What may stand behind a name: a character, an escape or a string. -/
def item : Pattern :=
  alt (one isBare) (alt escaped (alt (quotedBy '\x22') (quotedBy '\x27')))

/-- The bracket at the end of the text. -/
def closing : Pattern := seq (char ']') (notAhead (one fun _ => true))

/-- What stands behind a name, up to the end of the text. -/
def ending : Pattern := seq (star item) closing

/-- A name and what stands behind it; the name is remembered. -/
def named : Pattern := seq (group 1 identifier) ending

def qualified : Pattern := seq (opt space) named

/-- A whole attribute selector. -/
def whole : Pattern := seq (char '[') (seq (many Text.isBlank) qualified)

/-! ## Atoms -/

theorem spans_atom : atom.Spans fun t => ∃ a : Atom, a.Legal ∧ t = a.text := by
  refine .alt (.one fun c hc => ⟨.plain c, ⟨.plain hc, by simp⟩, rfl⟩) ?_
  refine .seq (A := (· = ['\\'])) (B := fun t => ∃ a : Atom, a.Legal ∧ '\\' :: t = a.text)
    (.char rfl) (.alt ?_ ?_) ?_
  · refine .seq (spans_upTo isHexDigit 5) spans_opt_one ?_
    rintro digits _ ⟨hne, hsix, hdigits⟩ ⟨terminator, rfl, hblank⟩
    obtain ⟨d, ds, rfl⟩ := List.exists_cons_of_ne_nil hne
    refine ⟨.code (d :: ds) terminator, ⟨.code hdigits hblank, ?_⟩, rfl⟩
    rintro _ _ ⟨rfl, rfl⟩
    exact hsix
  · refine .one fun c hc => ⟨.escaped c, ⟨?_, by simp⟩, rfl⟩
    simp only [Bool.not_eq_true', Bool.or_eq_false_iff] at hc
    exact .escaped hc.1 hc.2
  · rintro _ t rfl ht
    exact ht

/-- The preferred match of a code point, behind the backslash: all digits that it can have, and the
blank behind them. -/
theorem firstEnd?_code {p : Place} {c : Char} {s : Text} (hrest : p.rest = c :: s)
    (hc : isHexDigit c = true) :
    (seq (upTo isHexDigit 5) (opt (one Text.isBlank))).firstEnd? p =
      some (p.past
        (hexRun (c :: s) ++
          (takeTerminator Text.isBlank ((c :: s).drop (hexRun (c :: s)).length)).1.toList)
        (takeTerminator Text.isBlank ((c :: s).drop (hexRun (c :: s)).length)).2) := by
  have hne : hexRun (c :: s) ≠ [] := List.ne_nil_of_length_pos (hexRun_length_pos s hc)
  have hdigits : (upTo isHexDigit 5).firstEnd? p =
      some (p.past (hexRun (c :: s)) ((c :: s).drop (hexRun (c :: s)).length)) := by
    rw [firstEnd?_upTo isHexDigit 5 p rfl, hrest]
    exact if_neg hne
  rw [firstEnd?_seq_eq_some hdigits (firstEnd?_opt _ _), firstEnd?_one, Place.past_rest]
  cases (c :: s).drop (hexRun (c :: s)).length with
  | nil => simp [takeTerminator]
  | cons d r =>
    by_cases hd : Text.isBlank d = true
    · simp [takeTerminator, hd, Place.past_past]
    · simp [takeTerminator, hd]

theorem firstEnd?_escape {p : Place} {s : Text} (hrest : p.rest = '\\' :: s) :
    escape.firstEnd? p = (Atom.read? ('\\' :: s)).map fun (a, r) => p.past a.text r := by
  rw [escape, char, firstEnd?_seq_one, hrest]
  cases s with
  | nil => rfl
  | cons c s =>
    simp only [beq_self_eq_true, if_true]
    rw [firstEnd?]
    by_cases hc : isHexDigit c = true
    · rw [firstEnd?_code Place.past_rest hc]
      simp only [Atom.read?, hc, if_true, Option.map_some, Place.past_past]
      rfl
    · have hnone : (upTo isHexDigit 5).firstEnd? (p.past ['\\'] (c :: s)) = none := by
        rw [firstEnd?_upTo isHexDigit 5 _ rfl]
        simp [hc]
      rw [firstEnd?_seq_eq_none hnone, firstEnd?_one, Place.past_rest]
      by_cases hline : Text.isLineEnd c = true
      · simp [Atom.read?, hc, hline]
      · simp [Atom.read?, hc, hline, Place.past_past, Atom.text]

/-- The preferred match of an atom is the atom that is read. -/
theorem firstEnd?_atom (p : Place) :
    atom.firstEnd? p = (Atom.read? p.rest).map fun (a, r) => p.past a.text r := by
  rw [atom, firstEnd?, firstEnd?_one]
  cases hrest : p.rest with
  | nil =>
    rw [escape, char, firstEnd?_seq_one, hrest]
    rfl
  | cons c s =>
    by_cases hname : isNameChar c = true
    · simp only [Selector.atom_plain hname, if_pos hname]
      rfl
    · simp only [if_neg hname]
      by_cases hback : c = '\\'
      · subst hback
        exact firstEnd?_escape hrest
      · rw [escape, char, firstEnd?_seq_one, hrest,
          Selector.atom_none (by simpa using hname) hback]
        simp [hback]

theorem spans_identifier : identifier.Spans IsAtomRun := by
  refine .seq spans_atom
    (.star (L := fun t => ∃ as : List Atom, (∀ a ∈ as, a.Legal) ∧ t = as.flatMap Atom.text)
      spans_atom ⟨[], by simp, rfl⟩ ?_) ?_
  · rintro _ _ ⟨a, ha, rfl⟩ ⟨as, has, rfl⟩
    exact ⟨a :: as, List.forall_mem_cons.2 ⟨ha, has⟩, rfl⟩
  · rintro _ _ ⟨a, ha, rfl⟩ ⟨as, has, rfl⟩
    exact ⟨a :: as, List.cons_ne_nil _ _, List.forall_mem_cons.2 ⟨ha, has⟩, rfl⟩

/-- Preferred atoms, one behind the other, are those that are read. -/
theorem eq_of_prefers {p last : Place} (h : Prefers atom.ends p last) :
    last = p.past (Identifier.read p.rest).1 (Identifier.read p.rest).2 := by
  obtain ⟨hsteps, hlast⟩ := h
  induction hsteps using Relation.ReflTransGen.head_induction_on with
  | refl =>
    have hstop : Atom.read? last.rest = none := by
      have hnone := firstEnd?_eq_none_iff.2 hlast
      rwa [firstEnd?_atom, Option.map_eq_none_iff] at hnone
    rw [Selector.read_stop hstop, Place.past_nil]
  | @head a b hab _ ih =>
    rw [← firstEnd?_eq_head?, firstEnd?_atom] at hab
    obtain ⟨⟨x, r⟩, hread, rfl⟩ := Option.map_eq_some_iff.1 hab
    rw [ih, Place.past_past, Place.past_rest, read_some hread]

/-- The preferred match of an identifier is the name that is read. -/
theorem firstEnd?_identifier {p : Place} (hp : p.Sound) :
    identifier.firstEnd? p = (readName? p.rest).map fun (name, r) => p.past name r := by
  cases hread : Atom.read? p.rest with
  | none =>
    have hnone : atom.firstEnd? p = none := by rw [firstEnd?_atom, hread]; rfl
    rw [readName?_eq_none hread, identifier, plus, firstEnd?_seq_eq_none hnone]
    rfl
  | some found =>
    obtain ⟨a, r⟩ := found
    have hfirst : atom.firstEnd? p = some (p.past a.text r) := by rw [firstEnd?_atom, hread]; rfl
    obtain ⟨last, hstar, hlast⟩ := exists_firstEnd?_star spans_atom
      (by rintro _ ⟨a, -, rfl⟩; exact a.text_ne_nil) (hp.past (Atom.read?_append hread))
    rw [identifier, plus, firstEnd?_seq_eq_some hfirst hstar, eq_of_prefers hlast, Place.past_past]
    rw [Selector.readName?_of_read (read_some hread), if_neg (by simp [a.text_ne_nil])]
    rfl

/-! ## Namespaces -/

theorem mem_ends_bar {p q : Place} :
    q ∈ bar.ends p ↔ ∃ r, p.rest = '|' :: r ∧ r.head? ≠ some '=' ∧ q = p.past ['|'] r := by
  rw [bar, char, char, ends_seq_one]
  cases hrest : p.rest with
  | nil => simp
  | cons c r =>
    by_cases hc : c = '|'
    · subst hc
      simp only [beq_self_eq_true, if_true, ends_notAhead_one, Place.past_rest]
      by_cases hequal : r.head? = some '='
      · simp [hequal]
      · have hfree : r.head?.any (· == '=') = false := by
          cases r with
          | nil => rfl
          | cons d r => simpa using hequal
        simp [hfree, hequal]
    · simp [hc]

/-- What stands before a bar is the longest name of a namespace. -/
theorem eq_of_mem_ends_before_bar {p q : Place} {r : Text}
    (hq : q ∈ (opt (alt identifier (char '*'))).ends p) (hr : q.rest = '|' :: r) :
    ∃ n, readNamespaceName p.rest = (n, '|' :: r) ∧ q = p.past n ('|' :: r) := by
  have hspans : (opt (alt identifier (char '*'))).Spans fun t => IsAtomRun t ∨ t = ['*'] ∨ t = [] :=
    .opt (.alt (spans_identifier.mono fun t => .inl) (.char (.inr (.inl rfl))))
      (.inr (.inr rfl))
  obtain ⟨n, r', hn, hrest, rfl⟩ := hspans p q hq
  obtain rfl : r' = '|' :: r := hr
  refine ⟨n, ?_, rfl⟩
  rw [hrest]
  rcases hn with hrun | rfl | rfl
  · -- nothing that a shorter name leaves begins with a bar
    have hbar := (hrun.remains ('|' :: r)).eq_of_bar
    have happ := read_append (n ++ '|' :: r)
    rw [hbar] at happ
    have hread : Identifier.read (n ++ '|' :: r) = (n, '|' :: r) :=
      Prod.ext (List.append_cancel_right happ) hbar
    exact readNamespaceName_of_read hread (head?_ne_star hread hrun.ne_nil)
  · rfl
  · exact readNamespaceName_of_read (Selector.read_stop rfl) (by simp)

/-- The name of a namespace that is read is one that the pattern can take. -/
theorem mem_ends_name {p : Place} (hp : p.Sound) {n r : Text}
    (h : readNamespaceName p.rest = (n, r)) :
    p.past n r ∈ (opt (alt identifier (char '*'))).ends p := by
  simp only [opt, ends, List.mem_append, List.mem_singleton]
  by_cases hstar : p.rest.head? = some '*'
  · obtain ⟨s, hs⟩ := List.head?_eq_some_iff.1 hstar
    rw [hs] at h
    cases h
    have hchar : (char '*').firstEnd? p = some (p.past ['*'] r) := by
      rw [char, firstEnd?_one, hs]
      rfl
    exact .inl (.inr (mem_ends_of_firstEnd? hchar))
  · have hread : Identifier.read p.rest = (n, r) := by
      rwa [readNamespaceName_of_read rfl hstar] at h
    by_cases hn : n = []
    · subst hn
      have happ := read_append p.rest
      rw [hread] at happ
      obtain rfl : r = p.rest := happ
      exact .inr Place.past_nil
    · have hname := readName?_eq_some_iff.2 ⟨hn, hread⟩
      exact .inl (.inl (mem_ends_of_firstEnd? (by rw [firstEnd?_identifier hp, hname]; rfl)))

theorem mem_ends_space {p q : Place} (hp : p.Sound) :
    q ∈ space.ends p ↔ ∃ sp r, readNamespace? p.rest = some (sp, r) ∧ q = p.past sp r := by
  rw [space, ends, List.mem_flatMap]
  constructor
  · rintro ⟨m, hm, hq⟩
    obtain ⟨r, hr, hequal, rfl⟩ := mem_ends_bar.1 hq
    obtain ⟨n, hname, rfl⟩ := eq_of_mem_ends_before_bar hm hr
    exact ⟨n ++ ['|'], r, (Selector.readNamespace?_eq_some_iff hname).2 ⟨rfl, rfl, hequal⟩,
      Place.past_past⟩
  · rintro ⟨sp, r, hspace, rfl⟩
    obtain ⟨n, r', hname⟩ : ∃ n r', readNamespaceName p.rest = (n, r') := ⟨_, _, rfl⟩
    obtain ⟨rfl, rfl, hequal⟩ := (Selector.readNamespace?_eq_some_iff hname).1 hspace
    refine ⟨p.past n ('|' :: r), mem_ends_name hp hname, mem_ends_bar.2 ⟨r, rfl, hequal, ?_⟩⟩
    exact Place.past_past.symm

/-! ## What stands behind a name -/

theorem spans_escaped : escaped.Spans fun t => ∃ c, t = ['\\', c] := by
  refine .seq (A := (· = ['\\'])) (B := fun t => ∃ c, t = [c]) (.char rfl)
    (.one fun c _ => ⟨c, rfl⟩) ?_
  rintro _ _ rfl ⟨c, rfl⟩
  exact ⟨c, rfl⟩

theorem spans_quotedItem (quote : Char) :
    (quotedItem quote).Spans fun t =>
      (∃ c, t = [c] ∧ staysOpen true quote c = true) ∨ ∃ c, t = ['\\', c] := by
  exact .alt (.one fun c hc => .inl ⟨c, rfl, hc⟩) (spans_escaped.mono fun t => .inr)

theorem spans_quotedBy {quote : Char} (hq : quote ≠ '\\') :
    (quotedBy quote).Spans fun t =>
      ∃ body, t = quote :: body ∧ closeString true quote body = some (body, []) := by
  have hinner : (star (quotedItem quote)).Spans (Escaped (staysOpen true quote)) := by
    refine .star (spans_quotedItem quote) .nil ?_
    rintro _ u (⟨c, rfl, hc⟩ | ⟨c, rfl⟩) hu
    · exact .member hc hu
    · exact .escape c hu
  refine .seq (A := (· = [quote]))
    (B := fun t => closeString true quote t = some (t, [])) (.char rfl) ?_ ?_
  · refine .seq hinner (.char (L := (· = [quote])) rfl) ?_
    rintro t _ ht rfl
    exact (closeString_iff hq).2 ⟨t, rfl, (List.append_nil _).symm, ht⟩
  · rintro _ body rfl hbody
    exact ⟨body, rfl, hbody⟩

theorem spans_item : item.Spans fun t => t ≠ [] ∧ Unbracketed t := by
  have hstring : ∀ {quote : Char}, quote = '\x22' ∨ quote = '\x27' →
      (quotedBy quote).Spans fun t => t ≠ [] ∧ Unbracketed t := by
    intro quote hquote
    refine (spans_quotedBy (Item.quote_ne_backslash hquote)).mono ?_
    rintro _ ⟨body, rfl, hbody⟩
    have hstring := Unbracketed.string hquote hbody .nil
    rw [List.append_nil] at hstring
    exact ⟨List.cons_ne_nil _ _, hstring⟩
  refine .alt (.one fun c hc => ⟨List.cons_ne_nil _ _, .bare ?_ .nil⟩)
    (.alt (spans_escaped.mono ?_) (.alt (hstring (.inl rfl)) (hstring (.inr rfl))))
  · simpa [isBare, and_assoc] using hc
  · rintro _ ⟨c, rfl⟩
    exact ⟨List.cons_ne_nil _ _, .escape c .nil⟩

theorem firstEnd?_closing (p : Place) :
    closing.firstEnd? p = if p.rest = [']'] then some (p.past [']'] []) else none := by
  rw [closing, char, firstEnd?_seq_one]
  cases hrest : p.rest with
  | nil => rfl
  | cons c r =>
    simp only [firstEnd?_eq_head?, ends_notAhead_one, Place.past_rest]
    by_cases hc : c = ']'
    · subst hc
      cases r with
      | nil => rfl
      | cons d r => rfl
    · simp [hc]

theorem firstEnd?_escaped {p : Place} {c : Char} {s : Text} (hrest : p.rest = '\\' :: c :: s) :
    escaped.firstEnd? p = some (p.past ['\\', c] s) := by
  rw [escaped, char, firstEnd?_seq_one, hrest]
  simp [firstEnd?_one, Place.past_past]

/-- The characters of a string are taken up to its end. -/
theorem rest_of_prefers {quote : Char} (hq : quote ≠ '\\') {p last : Place} {b s : Text}
    (h : Prefers (quotedItem quote).ends p last) (hb : Escaped (staysOpen true quote) b)
    (hrest : p.rest = b ++ quote :: s) : last.rest = quote :: s := by
  induction hb generalizing p with
  | nil =>
    have hnone : (quotedItem quote).firstEnd? p = none := by
      rw [quotedItem, firstEnd?, firstEnd?_one, escaped, char, firstEnd?_seq_one, hrest]
      simp [staysOpen, hq]
    rw [h.eq_of_firstEnd? hnone, hrest]
    rfl
  | @member c b hc _ ih =>
    have hsome : (quotedItem quote).firstEnd? p = some (p.past [c] (b ++ quote :: s)) := by
      rw [quotedItem, firstEnd?, firstEnd?_one, hrest]
      simp [hc]
    exact ih (h.of_firstEnd? hsome) rfl
  | @escape c b _ ih =>
    have hsome : (quotedItem quote).firstEnd? p = some (p.past ['\\', c] (b ++ quote :: s)) := by
      rw [quotedItem, firstEnd?, firstEnd?_one, firstEnd?_escaped hrest, hrest]
      simp [staysOpen]
    exact ih (h.of_firstEnd? hsome) rfl

theorem exists_firstEnd?_quotedBy {quote : Char} (hq : quote ≠ '\\') {p : Place} (hp : p.Sound)
    {body s : Text} (hbody : closeString true quote body = some (body, []))
    (hrest : p.rest = quote :: body ++ s) : ∃ q, (quotedBy quote).firstEnd? p = some q := by
  obtain ⟨b, rfl, -, hb⟩ := (closeString_iff hq).1 hbody
  have hsound : (p.past [quote] (b ++ quote :: s)).Sound := hp.past (by simp [hrest])
  have hne : ∀ t, ((∃ c, t = [c] ∧ staysOpen true quote c = true) ∨ ∃ c, t = ['\\', c]) →
      t ≠ [] := by
    rintro t (⟨c, rfl, -⟩ | ⟨c, rfl⟩) <;> exact List.cons_ne_nil _ _
  obtain ⟨last, hstar, hlast⟩ := exists_firstEnd?_star (spans_quotedItem quote) hne hsound
  have hend : (char quote).firstEnd? last = some (last.past [quote] s) := by
    rw [char, firstEnd?_one, rest_of_prefers hq hlast hb rfl]
    simp
  refine ⟨last.past [quote] s, ?_⟩
  rw [quotedBy, char, firstEnd?_seq_one, hrest]
  simp only [List.cons_append, List.append_assoc, List.nil_append, beq_self_eq_true, if_true]
  exact firstEnd?_seq_eq_some hstar hend

/-- Before the bracket at the end of the text there is always something to be taken. -/
theorem rest_of_ends_item_eq_nil {p : Place} (hp : p.Sound) (h : endsAttribute p.rest = true)
    (hnil : item.ends p = []) : p.rest = [']'] := by
  obtain ⟨u, hrest, hu⟩ := Unbracketed.endsAttribute_iff.1 h
  rw [hrest]
  simp only [item, ends, List.append_eq_nil_iff, ← firstEnd?_eq_none_iff] at hnil
  obtain ⟨hbare, hescaped, hdouble, hsingle⟩ := hnil
  cases hu with
  | nil => rfl
  | @bare c s hc =>
    have hfree : isBare c = true := by simpa [isBare, and_assoc] using hc
    simp [hrest, hfree] at hbare
  | escape c _ => rw [firstEnd?_escaped hrest] at hescaped; cases hescaped
  | @string quote body s hquote hbody =>
    obtain ⟨q, hsome⟩ := exists_firstEnd?_quotedBy (Item.quote_ne_backslash hquote) hp hbody
      (s := s ++ [']']) (by simp [hrest])
    rcases hquote with rfl | rfl
    · cases hsome.symm.trans hdouble
    · cases hsome.symm.trans hsingle

/-- Escapes, strings and other characters are taken up to the end of the text, or nothing is. -/
theorem firstEnd?_ending {p : Place} (hp : p.Sound) :
    ending.firstEnd? p = if endsAttribute p.rest then some (p.past p.rest []) else none := by
  have hspans : (star item).Spans Unbracketed :=
    .star spans_item .nil fun t u ht hu => ht.2.append_iff.2 hu
  by_cases hends : endsAttribute p.rest = true
  · obtain ⟨last, hstar, hlast⟩ := exists_firstEnd?_star spans_item (fun t ht => ht.1) hp
    have hmem := mem_ends_of_firstEnd? hstar
    have hsound := hspans.sound hp hmem
    obtain ⟨t, r, ht, hrest, rfl⟩ := hspans p last hmem
    rw [hrest, ht.endsAttribute_append] at hends
    -- the items that are taken end where no item stands
    obtain rfl : r = [']'] := rest_of_ends_item_eq_nil hsound hends hlast.2
    have hclosing := firstEnd?_closing (p.past t [']'])
    rw [if_pos Place.past_rest, Place.past_past, ← hrest] at hclosing
    rw [ending, firstEnd?_seq_eq_some hstar hclosing, hrest, ht.endsAttribute_append, if_pos hends]
  · rw [if_neg hends, ending, firstEnd?_seq_eq_none_iff]
    intro q hq
    obtain ⟨t, r, ht, hrest, rfl⟩ := hspans p q hq
    rw [hrest, ht.endsAttribute_append] at hends
    rw [firstEnd?_closing, Place.past_rest, if_neg]
    rintro rfl
    exact hends (by simp [endsAttribute])

/-! ## The whole -/

/-- The place where a name and all behind it have been matched. -/
def stopOf (p : Place) (name r : Text) : Place := ((p.past name r).remember 1 p).past r []

/-- The place where a match ends that takes a namespace and a name, if what stands behind them goes
up to the end of the text. -/
def nameEnd? (p : Place) : Text × Text × Text → Option Place
  | (sp, name, r) => if endsAttribute r then some (stopOf (p.past sp (name ++ r)) name r) else none

theorem groups_stopOf {p : Place} {name r : Text} :
    (stopOf p name r).groups = ⟨1, p.rest, name.length⟩ :: p.groups := by
  simp [stopOf, Place.past, Place.remember]

theorem group_stopOf {p : Place} {name r : Text} (hrest : p.rest = name ++ r) :
    (stopOf p name r).group 1 = name := by
  simp [Place.group, Place.group?, groups_stopOf, Group.text, hrest]

theorem nameEnd?_nil {p : Place} {name r : Text} (hrest : p.rest = name ++ r) :
    nameEnd? p ([], name, r) = if endsAttribute r then some (stopOf p name r) else none := by
  rw [nameEnd?, ← hrest, Place.past_nil]

theorem nameEnd?_past {p : Place} {sp name r : Text} :
    nameEnd? (p.past sp (name ++ r)) ([], name, r) = nameEnd? p (sp, name, r) := by
  rw [nameEnd?_nil Place.past_rest, nameEnd?]

/-- If the longest name is not followed to the end of the text, no shorter one is. -/
theorem firstEnd?_named {p : Place} (hp : p.Sound) :
    named.firstEnd? p = (readName? p.rest).bind fun found => nameEnd? p ([], found) := by
  have hidentifier := firstEnd?_identifier hp
  cases hname : readName? p.rest with
  | none =>
    rw [hname] at hidentifier
    exact firstEnd?_seq_eq_none (by rw [firstEnd?, hidentifier]; rfl)
  | some found =>
    obtain ⟨name, r⟩ := found
    rw [hname] at hidentifier
    rw [Option.bind_some, nameEnd?_nil (readName?_append hname)]
    have hgroup : (group 1 identifier).firstEnd? p = some ((p.past name r).remember 1 p) := by
      rw [firstEnd?, hidentifier]
      rfl
    have hsound : ∀ {t s : Text}, p.rest = t ++ s → ((p.past t s).remember 1 p).Sound :=
      fun hrest => hp.past hrest
    by_cases hends : endsAttribute r = true
    · have hending := firstEnd?_ending (hsound (readName?_append hname))
      rw [show ((p.past name r).remember 1 p).rest = r from rfl, if_pos hends] at hending
      rw [named, firstEnd?_seq_eq_some hgroup hending, if_pos hends, stopOf]
    · simp only [if_neg hends, named, firstEnd?_seq_eq_none_iff, ends, List.mem_map]
      -- a shorter name leaves more of the text, but what follows the longest decides
      rintro _ ⟨q, hq, rfl⟩
      obtain ⟨t, s, ht, hrest, rfl⟩ := spans_identifier p q hq
      have hremains := ht.remains s
      rw [← hrest, (readName?_eq_some_iff.1 hname).2] at hremains
      rw [firstEnd?_ending (hsound hrest), if_neg]
      exact fun h => hends (hremains.endsAttribute_eq ▸ h)

/-- However often the pattern can take a namespace, it always ends at the same place. -/
theorem findSome?_space {p : Place} (hp : p.Sound) (f : Place → Option Place) :
    (space.ends p).findSome? f = (readNamespace? p.rest).bind fun (sp, t) => f (p.past sp t) := by
  cases hspace : readNamespace? p.rest with
  | none =>
    have hnil : space.ends p = [] := by
      refine List.eq_nil_iff_forall_not_mem.2 fun q hq => ?_
      obtain ⟨sp, t, hsome, -⟩ := (mem_ends_space hp).1 hq
      cases hsome.symm.trans hspace
    rw [hnil]
    rfl
  | some found =>
    obtain ⟨sp, t⟩ := found
    have hmem : p.past sp t ∈ space.ends p := (mem_ends_space hp).2 ⟨sp, t, hspace, rfl⟩
    have hall : ∀ q ∈ space.ends p, q = p.past sp t := by
      intro q hq
      obtain ⟨sp', t', hsome, rfl⟩ := (mem_ends_space hp).1 hq
      rw [hspace] at hsome
      cases hsome
      rfl
    rw [List.eq_replicate_of_mem hall]
    exact List.findSome?_replicate_of_pos (List.length_pos_of_mem hmem)

theorem endsAttribute_of_readName? {s name r : Text} (h : readName? s = some (name, r)) :
    endsAttribute s = endsAttribute r := by
  have hremains := remains_read s
  rw [(readName?_eq_some_iff.1 h).2] at hremains
  exact hremains.endsAttribute_eq

/-- Whether the name before a bar or the one behind it is taken, the same text must be an ending. -/
theorem endsAttribute_of_readNamespace? {s sp t n r : Text}
    (hspace : readNamespace? s = some (sp, t)) (hname : readName? s = some (n, r)) :
    endsAttribute r = endsAttribute t := by
  obtain ⟨hne, hread⟩ := readName?_eq_some_iff.1 hname
  have hnamespace := readNamespaceName_of_read hread (head?_ne_star hread hne)
  obtain ⟨-, rfl, -⟩ := (Selector.readNamespace?_eq_some_iff hnamespace).1 hspace
  have hbar : Unbracketed ['|'] := .of_bare (by simp)
  exact hbar.endsAttribute_append t

/-- If the name behind a bar is not followed to the end of the text, the one before it is not. -/
theorem firstEnd?_qualified {p : Place} (hp : p.Sound) :
    qualified.firstEnd? p = (readQualified? readName? p.rest).bind (nameEnd? p) := by
  have hchoice : qualified.firstEnd? p =
      ((space.ends p).findSome? named.firstEnd?).or (named.firstEnd? p) := by
    simp only [qualified, firstEnd?, opt, ends, List.findSome?_append, List.findSome?_singleton]
  rw [hchoice, findSome?_space hp, firstEnd?_named hp]
  cases hspace : readNamespace? p.rest with
  | none =>
    simp only [readQualified?, hspace, Option.bind_none, Option.none_or, Option.bind_map]
    rfl
  | some found =>
    obtain ⟨sp, t⟩ := found
    have hsound : (p.past sp t).Sound := hp.past (readNamespace?_append hspace)
    simp only [Option.bind_some, firstEnd?_named hsound, Place.past_rest]
    cases hname : readName? t with
    | none =>
      simp only [readQualified?, hspace, hname, Option.bind_none, Option.none_or, Option.bind_map]
      rfl
    | some found =>
      obtain ⟨name, r⟩ := found
      obtain rfl : t = name ++ r := readName?_append hname
      simp only [readQualified?, hspace, hname, Option.bind_some, nameEnd?_past]
      by_cases hends : endsAttribute r = true
      · simp only [nameEnd?, if_pos hends, Option.some_or]
      · simp only [nameEnd?, if_neg hends, Option.none_or]
        -- the name before the bar does no better
        rw [← endsAttribute_of_readName? hname] at hends
        cases hfirst : readName? p.rest with
        | none => rfl
        | some found =>
          rw [← endsAttribute_of_readNamespace? hspace hfirst] at hends
          exact if_neg hends

/-- No name begins with a blank. -/
theorem readQualified?_blank {c : Char} (hc : Text.isBlank c = true) (s : Text) :
    readQualified? readName? (c :: s) = none := by
  have hback : c ≠ '\\' ∧ c ≠ '*' ∧ c ≠ '|' := by
    refine ⟨?_, ?_, ?_⟩ <;> rintro rfl <;> cases hc
  have hstop := Selector.atom_none (s := s) (free_of_isBlank hc).1 hback.1
  have hnamespace : readNamespaceName (c :: s) = ([], c :: s) :=
    readNamespaceName_of_read (Selector.read_stop hstop) fun hstar =>
      hback.2.1 (Option.some.inj hstar)
  have hspace : readNamespace? (c :: s) = none := by
    refine Option.eq_none_iff_forall_ne_some.2 fun ⟨sp, t⟩ hsome => ?_
    obtain ⟨-, hbar, -⟩ := (Selector.readNamespace?_eq_some_iff hnamespace).1 hsome
    exact hback.2.2 (List.cons.inj hbar).1
  simp only [readQualified?, hspace, readName?_eq_none hstop, Option.map_none]

/-- The pattern prefers the name that is read. -/
theorem firstEnd?_whole (s : Text) :
    whole.firstEnd? (.start ('[' :: s)) =
      (readQualified? readName? (s.dropWhile Text.isBlank)).bind
        (nameEnd? ((Place.start ('[' :: s)).past ('[' :: s.takeWhile Text.isBlank)
          (s.dropWhile Text.isBlank))) := by
  have hfirst := firstEnd?_many Text.isBlank ((Place.start ('[' :: s)).past ['['] s)
  rw [Place.past_past, Place.past_rest] at hfirst
  have hsound : ∀ {t r : Text}, s = t ++ r →
      ((Place.start ('[' :: s)).past ('[' :: t) r).Sound := by
    rintro t r rfl
    exact (Place.sound_start _).past rfl
  have hqualified := firstEnd?_qualified
    (hsound (List.takeWhile_append_dropWhile (p := Text.isBlank)).symm)
  rw [Place.past_rest] at hqualified
  rw [whole, char, firstEnd?_seq_one]
  cases hbehind : qualified.firstEnd? ((Place.start ('[' :: s)).past
      ('[' :: s.takeWhile Text.isBlank) (s.dropWhile Text.isBlank)) with
  | some stop =>
    rw [← hqualified, hbehind]
    exact firstEnd?_seq_eq_some hfirst hbehind
  | none =>
    rw [← hqualified, hbehind]
    refine firstEnd?_seq_eq_none_iff.2 fun q hq => ?_
    obtain ⟨t, r, ht, hrest, rfl⟩ := spans_many Text.isBlank _ q hq
    obtain rfl : s = t ++ r := hrest
    rw [Place.past_past, List.singleton_append]
    by_cases hblank : ∃ c ∈ r.head?, Text.isBlank c = true
    · obtain ⟨c, hr, hc⟩ := hblank
      obtain ⟨r, rfl⟩ := List.head?_eq_some_iff.1 hr
      rw [firstEnd?_qualified (hsound rfl), Place.past_rest, readQualified?_blank hc]
      rfl
    · -- only the longest run of blanks ends before another character
      have hdrop : (t ++ r).dropWhile Text.isBlank = r :=
        dropWhile_blanks ht fun c hr => by simpa using fun hc => hblank ⟨c, hr, hc⟩
      have htake : (t ++ r).takeWhile Text.isBlank = t := by
        have happ := List.takeWhile_append_dropWhile (p := Text.isBlank) (l := t ++ r)
        rw [hdrop] at happ
        exact List.append_cancel_right happ
      rwa [hdrop, htake] at hbehind

end Pattern.Attribute

/-! ## The name of an attribute -/

open Identifier Pattern

/-- A text begins with the name of a namespace, a bar that no `=` follows, and an identifier. -/
def Qualifies (s space behind : Text) : Prop :=
  s = space ++ '|' :: behind ∧ (space = [] ∨ space = ['*'] ∨ IsLongest s space) ∧
    behind.head? ≠ some '=' ∧ ∃ name, IsAtomRun name ∧ name <+: behind

/-- What the reader takes as the name of a namespace. -/
theorem namespaceName_cases {s n r : Text} (h : readNamespaceName s = (n, r)) :
    n = [] ∨ n = ['*'] ∨ IsLongest s n := by
  by_cases hstar : s.head? = some '*'
  · obtain ⟨t, rfl⟩ := List.head?_eq_some_iff.1 hstar
    exact .inr (.inl (congrArg Prod.fst h).symm)
  · rw [readNamespaceName_of_read rfl hstar] at h
    by_cases hn : n = []
    · exact .inl hn
    · exact .inr (.inr (isLongest_iff.2 ⟨r, readName?_eq_some_iff.2 ⟨hn, h⟩⟩))

theorem qualifies_iff {s n t : Text} :
    Qualifies s n t ↔
      readNamespace? s = some (n ++ ['|'], t) ∧ ∃ name r, readName? t = some (name, r) := by
  constructor
  · rintro ⟨rfl, hn, hequal, name, hrun, hprefix⟩
    have hname : readNamespaceName (n ++ '|' :: t) = (n, '|' :: t) := by
      rcases hn with rfl | rfl | hlongest
      · exact readNamespaceName_of_read (Selector.read_stop rfl) (by simp)
      · rfl
      · obtain ⟨r, hread⟩ := isLongest_iff.1 hlongest
        obtain rfl : '|' :: t = r := List.append_cancel_left (readName?_append hread)
        obtain ⟨hne, hread⟩ := readName?_eq_some_iff.1 hread
        exact readNamespaceName_of_read hread (head?_ne_star hread hne)
    exact ⟨(Selector.readNamespace?_eq_some_iff hname).2 ⟨rfl, rfl, hequal⟩, _, _,
      hrun.readName?_eq hprefix⟩
  · rintro ⟨hspace, name, r, hread⟩
    obtain ⟨n', hname⟩ : ∃ n', (readNamespaceName s).1 = n' := ⟨_, rfl⟩
    obtain ⟨heq, hbar, hequal⟩ :=
      (Selector.readNamespace?_eq_some_iff (Prod.ext hname rfl)).1 hspace
    obtain rfl := List.append_cancel_right heq
    have htext := readNamespace?_append hspace
    rw [List.append_assoc, List.singleton_append] at htext
    exact ⟨htext, namespaceName_cases (Prod.ext hname rfl), hequal, name,
      isAtomRun_of_readName? hread, r, (readName?_append hread).symm⟩

/-- The reader of names and the pattern agree on the name, and on whether there is one. -/
theorem attributeName?_eq_pattern (s : Text) :
    attributeName? s = (Attribute.whole.firstEnd? (.start ('[' :: s))).map (·.group 1) := by
  rw [Attribute.firstEnd?_whole, attributeName?]
  cases readQualified? readName? (s.dropWhile Text.isBlank) with
  | none => rfl
  | some found =>
    obtain ⟨space, name, r⟩ := found
    simp only [Option.bind_some, Attribute.nameEnd?]
    by_cases hends : endsAttribute r = true
    · simp [hends, Attribute.group_stopOf Place.past_rest]
    · simp [hends]

namespace Part

variable {s rest : Text} {p : Part}

/-- The name of an attribute selector stands behind its blanks: behind a namespace, if one stands
there with an identifier behind its bar, or else at once. It is the longest identifier at its place,
and among all ways to match the selector the pattern prefers one that remembers this name at this
place. -/
theorem read_attribute_name (h : Part.read '[' s = .ok (p, rest)) :
    ∃ blanks space more, p.raw = '[' :: (blanks ++ (space ++ p.value ++ more)) ∧
      (∀ c ∈ blanks, Text.isBlank c = true) ∧
      (∀ c ∈ (space ++ p.value).head?, Text.isBlank c = false) ∧
      (∀ n behind, Qualifies (space ++ p.value ++ more) n behind →
        space = n ++ ['|'] ∧ IsLongest behind p.value) ∧
      ((¬ ∃ n behind, Qualifies (space ++ p.value ++ more) n behind) →
        space = [] ∧ IsLongest (space ++ p.value ++ more) p.value) ∧
      ∃ stop others, Attribute.whole.ends (.start p.raw) = stop :: others ∧ stop.rest = [] ∧
        stop.groups = [⟨1, p.value ++ more, p.value.length⟩] := by
  have hattribute : readAttribute s = .ok (p, rest) := h
  obtain ⟨group, name, -, hgroup, rfl⟩ := exists_of_readAttribute hattribute
  obtain ⟨blanks, space, tail, rfl, hblanks, hhead, htail, hread⟩ := exists_of_attributeName? hgroup
  refine ⟨blanks, space, tail ++ [']'], rfl, hblanks, hhead, ?_, ?_, ?_⟩
  · intro n behind hqualifies
    obtain ⟨hspace, name', r, hname⟩ := qualifies_iff.1 hqualifies
    simp only [readQualified?, hspace, hname, Option.some.injEq, Prod.mk.injEq] at hread
    obtain ⟨rfl, rfl, -⟩ := hread
    exact ⟨rfl, isLongest_iff.2 ⟨r, hname⟩⟩
  · intro hnone
    rcases readQualified?_eq_some hread with ⟨t, hspace, hname⟩ | ⟨rfl, hname⟩
    · obtain ⟨n, rfl⟩ : ∃ n, space = n ++ ['|'] :=
        ⟨_, ((Selector.readNamespace?_eq_some_iff rfl).1 hspace).1⟩
      exact absurd ⟨_, t, qualifies_iff.2 ⟨hspace, _, _, hname⟩⟩ hnone
    · exact ⟨rfl, isLongest_iff.2 ⟨_, hname⟩⟩
  · have hfirst := Attribute.firstEnd?_whole (blanks ++ (space ++ name ++ (tail ++ [']'])))
    have hends := Unbracketed.endsAttribute_iff.2 ⟨tail, rfl, htail⟩
    obtain ⟨-, -, ⟨hne, -⟩, -⟩ := readQualified?_name_eq_some hread
    have hfree : ∀ c ∈ (space ++ name ++ (tail ++ [']'])).head?, Text.isBlank c = false := by
      rw [List.head?_append_of_ne_nil _ (List.append_ne_nil_of_right_ne_nil space hne)]
      exact hhead
    rw [dropWhile_blanks hblanks hfree, hread, Option.bind_some, Attribute.nameEnd?,
      if_pos hends] at hfirst
    obtain ⟨others, hall⟩ := firstEnd?_eq_some_cons.1 hfirst
    exact ⟨_, others, hall, rfl, Attribute.groups_stopOf⟩

/-- Behind a namespace, a name whose escape could end before its blank or its last digit. -/
theorem read_attribute_name_escape :
    Part.read '[' " x|a\\61 b=c]".toList =
        .ok (⟨.attribute, "a\\61 b".toList, "[ x|a\\61 b=c]".toList⟩, []) ∧
      ∃ stop others, Attribute.whole.ends (.start "[ x|a\\61 b=c]".toList) = stop :: others ∧
        stop.rest = [] ∧ stop.group 1 = "a\\61 b".toList := by
  have hread : Part.read '[' " x|a\\61 b=c]".toList =
      .ok (⟨.attribute, "a\\61 b".toList, "[ x|a\\61 b=c]".toList⟩, []) := by decide +kernel
  obtain ⟨blanks, space, more, -, -, -, -, -, stop, others, hends, hrest, hgroups⟩ :=
    read_attribute_name hread
  refine ⟨hread, stop, others, hends, hrest, ?_⟩
  simp [Place.group, Place.group?, hgroups, Group.text]

end Part

end StylePrune
