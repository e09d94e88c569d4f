import StylePrune.Proofs.NormalForm
import StylePrune.Proofs.Terminals

/-!
# Comments in attribute selectors

Two readers look at an attribute selector. The first one closes the bracket, and skips strings,
escapes and comments on the way. The second one looks for the name in the closed group: it takes
blanks before the name, and behind it strings, escapes, and whatever else is no bracket. To the
second reader a comment is no more than its characters. So a comment may stand behind the name
unless its own quotes, backslashes or brackets upset the text there, and it may not stand before the
name, although blanks may.

The place of a comment is told by `Items`: the text before it is read item by item, so the comment
begins in no string, escape or other comment. `Unbracketed` is the language of the second reader.

* `closeGroup_insert`: a shielded text put between the items of a closed group leaves it closed.
* `readQualified?_congr`: a qualified name is read again with another text behind it.
* `Unbracketed.endsAttribute_iff`: what the second reader accepts behind the name.
* `Selector.parse_attribute_comment`: what becomes of an attribute selector with a comment in it.
-/

namespace StylePrune

/-! ## Texts made of items -/

/-- The first text is read item by item when the second one stands behind it. -/
inductive Items : Text → Text → Prop where
  | nil (v : Text) : Items [] v
  | cons {item : Item} {u v : Text} (hitem : Item.Taken item (u ++ v)) (hu : Items u v) :
      Items (item.text ++ u) v

section

variable {u v w : Text}

theorem head?_append_imp {c : Char} (h : w.head? = some c → v.head? = some c) (u : Text) :
    (u ++ w).head? = some c → (u ++ v).head? = some c := by
  cases u with
  | nil => exact h
  | cons d u => exact id

/-- The items stay the same unless an asterisk comes to stand behind them. -/
theorem Items.congr (h : Items u v) (hw : w.head? = some '*' → v.head? = some '*') :
    Items u w := by
  induction h with
  | nil => exact .nil w
  | @cons item u v hitem hu ih => exact .cons (hitem.congr (head?_append_imp hw u)) (ih hw)

/-- Characters that shield nothing are items, slashes apart. -/
theorem Items.of_bare (h : ∀ c ∈ u, c ∉ ['\\', '\x22', '\x27', '/']) (v : Text) : Items u v := by
  induction u with
  | nil => exact .nil v
  | cons c u ih =>
    obtain ⟨hc, hu⟩ := List.forall_mem_cons.1 h
    simp only [List.mem_cons, List.not_mem_nil, or_false, not_or] at hc
    obtain ⟨hback, hdouble, hsingle, hslash⟩ := hc
    have hitem : Item.Taken (.bare c) (u ++ v) :=
      .bare hback (by simp [hdouble, hsingle]) fun hc => absurd hc hslash
    exact .cons hitem (ih hu)

theorem Items.of_blanks (h : ∀ c ∈ u, Text.isBlank c = true) (v : Text) : Items u v := by
  refine .of_bare (fun c hc hshield => ?_) v
  have hblank := h c hc
  revert hshield
  simp only [List.mem_cons, List.not_mem_nil, or_false]
  rintro (rfl | rfl | rfl | rfl) <;> cases hblank

variable {awaited : Char} {outer : List Char}

/-- What an item does to the open groups does not depend on what stands behind it. -/
theorem closeGroup_step {item : Item} {r group rest : Text} (hitem : Item.Taken item r)
    (h : closeGroup awaited outer (item.text ++ r) = .ok (group, rest)) (hr : rest ≠ r) :
    ∃ awaited' outer', ∀ r', Item.Taken item r' →
      closeGroup awaited outer (item.text ++ r') =
        Text.prepend item.text (closeGroup awaited' outer' r') := by
  cases item with
  | shielded t => exact ⟨awaited, outer, fun r' hr' => closeGroup_shielded hr'.next⟩
  | bare c =>
    rw [closeGroup_bare hitem.next] at h
    cases hopening : closerOf? c with
    | some closer =>
      refine ⟨closer, awaited :: outer, fun r' hr' => ?_⟩
      simp only [closeGroup_bare hr'.next, hopening]
      rfl
    | none =>
      simp only [hopening] at h
      by_cases hclosing : (c == ')' || c == ']') = true
      · rw [if_pos hclosing] at h
        by_cases hawaited : (c == awaited) = true
        · rw [if_pos hawaited] at h
          cases outer with
          | nil =>
            cases h
            exact absurd rfl hr
          | cons next outer =>
            refine ⟨next, outer, fun r' hr' => ?_⟩
            simp only [closeGroup_bare hr'.next, hopening, if_pos hclosing, if_pos hawaited]
            rfl
        · rw [if_neg hawaited] at h
          cases h
      · refine ⟨awaited, outer, fun r' hr' => ?_⟩
        simp only [closeGroup_bare hr'.next, hopening, if_neg hclosing]
        rfl

/-- A shielded text may stand between the items of a group. -/
theorem closeGroup_insert {t : Text} (ht : ∀ r, Item.Taken (.shielded t) r)
    (hstar : t.head? ≠ some '*') (hne : t ≠ []) (hitems : Items u v) (hv : v ≠ [])
    (h : closeGroup awaited outer (u ++ v) = .ok (u ++ v, [])) :
    closeGroup awaited outer (u ++ (t ++ v)) = .ok (u ++ (t ++ v), []) := by
  induction hitems generalizing awaited outer with
  | nil v =>
    have hnext : Item.next (t ++ v) = .ok (some (.shielded t, v)) := (ht v).next
    rw [List.nil_append] at h ⊢
    rw [closeGroup_shielded hnext, h]
    rfl
  | @cons item u v hitem hu ih =>
    have hr : [] ≠ u ++ v := by simp [hv]
    rw [List.append_assoc] at h ⊢
    obtain ⟨awaited', outer', hstep⟩ := closeGroup_step hitem h hr
    rw [hstep _ hitem] at h
    obtain ⟨g, hg, heq⟩ := Text.prepend_eq_ok_iff.1 h
    rw [List.append_cancel_left heq.symm] at hg
    have hhead : (u ++ (t ++ v)).head? = some '*' → (u ++ v).head? = some '*' := by
      refine head?_append_imp (fun hc => absurd ?_ hstar) u
      obtain ⟨d, t', rfl⟩ := List.exists_cons_of_ne_nil hne
      exact hc
    rw [hstep _ (hitem.congr hhead), ih hv hg]
    rfl

end

/-! ## Names with other texts behind them -/

namespace Identifier

variable {x y : Text}

/-- An atom is read again with another text behind it, unless that goes on with a hexadecimal digit
or a blank that the first one does not go on with. -/
theorem Atom.read?_congr {a : Atom} (h : Atom.read? (a.text ++ x) = some (a, x))
    (hy : ∀ c ∈ y.head?, c ∈ x.head? ∨ isHexDigit c = false ∧ Text.isBlank c = false) :
    Atom.read? (a.text ++ y) = some (a, y) := by
  cases a with
  | plain c =>
    have hc : Atom.Formed (.plain c) := formed_of_read? h
    cases hc with
    | plain hname => exact Selector.atom_plain hname y
  | escaped c =>
    have hc : Atom.Formed (.escaped c) := formed_of_read? h
    cases hc with
    | escaped hhex hline => simp [Atom.text, Atom.read?, hhex, hline]
  | code digits terminator =>
    obtain ⟨hne, hsix, hdigits, hlongest, hblank, hbare⟩ := Atom.read?_eq_code h
    refine Atom.read?_code hne hsix hdigits (fun hlt c hc => ?_) hblank fun hnone c hc => ?_
    · cases terminator with
      | none =>
        rcases hy c hc with hx | hfree
        · exact hlongest hlt c hx
        · exact hfree.1
      | some b => exact hlongest hlt c hc
    · rcases hy c hc with hx | hfree
      · exact hbare hnone c hx
      · exact hfree.2

theorem read_some {s r : Text} {a : Atom} (h : Atom.read? s = some (a, r)) :
    read s = (a.text ++ (read r).1, (read r).2) := by
  unfold read
  rw [Selector.atoms_some h]
  rfl

/-- An identifier is read again with another text behind it, if no atom stands there. -/
theorem read_congr {s name : Text} (h : read s = (name, x)) (hstop : Atom.read? y = none)
    (hy : ∀ c ∈ y.head?, c ∈ x.head? ∨ isHexDigit c = false ∧ Text.isBlank c = false) :
    read (name ++ y) = (name, y) := by
  unfold read at h
  obtain ⟨rfl, rfl⟩ := Prod.mk.inj h
  fun_induction atoms s with
  | case1 s hnone => exact Selector.read_stop hstop
  | case2 s a rest hread as rest' heq ih =>
    rw [heq] at ih
    have hagain := ih hy rfl
    have happ := read_append rest
    unfold read at happ
    rw [heq] at happ
    simp only at happ hy
    -- the atoms behind the first one are followed as it is
    have hhead : ∀ c ∈ (as.flatMap Atom.text ++ y).head?,
        c ∈ rest.head? ∨ isHexDigit c = false ∧ Text.isBlank c = false := by
      intro c hc
      cases has : as.flatMap Atom.text with
      | nil =>
        rw [has, List.nil_append] at hc happ
        rw [← happ]
        exact hy c hc
      | cons d ds =>
        rw [has] at hc happ
        rw [← happ]
        exact .inl hc
    rw [Atom.read?_append hread] at hread
    have hfirst := Atom.read?_congr hread hhead
    unfold read at hagain ⊢
    obtain ⟨htext, hrest⟩ := Prod.mk.inj hagain
    simp only [List.flatMap_cons, List.append_assoc, Selector.atoms_some hfirst, htext, hrest]

end Identifier

/-! ## What stands behind the name of an attribute -/

/-- Escapes, strings, and characters that are neither quote nor bracket. -/
inductive Unbracketed : Text → Prop where
  | nil : Unbracketed []
  | bare {c : Char} {s : Text} (hc : c ∉ [']', '\\', '\x22', '\x27']) (hs : Unbracketed s) :
      Unbracketed (c :: s)
  | escape (c : Char) {s : Text} (hs : Unbracketed s) : Unbracketed ('\\' :: c :: s)
  | string {q : Char} {body s : Text} (hq : q = '\x22' ∨ q = '\x27')
      (hbody : closeString true q body = some (body, [])) (hs : Unbracketed s) :
      Unbracketed (q :: body ++ s)

namespace Unbracketed

variable {u v s : Text}

theorem of_bare (h : ∀ c ∈ u, c ∉ [']', '\\', '\x22', '\x27']) : Unbracketed u := by
  induction u with
  | nil => exact .nil
  | cons c u ih =>
    obtain ⟨hc, hu⟩ := List.forall_mem_cons.1 h
    exact .bare hc (ih hu)

/-- Only what stands behind such a text decides whether a bracket ends it. -/
theorem endsAttribute_append (hu : Unbracketed u) (s : Text) :
    endsAttribute (u ++ s) = endsAttribute s := by
  induction hu with
  | nil => rfl
  | @bare c u hc _ ih =>
    simp only [List.mem_cons, List.not_mem_nil, or_false, not_or] at hc
    obtain ⟨hbracket, hback, hdouble, hsingle⟩ := hc
    rw [List.cons_append, endsAttribute.eq_4 _ _ (fun hc => absurd hc hbracket)
      (fun _ _ hc => absurd hc hback)]
    simp [hdouble, hsingle, hbracket, hback, ih]
  | escape c _ ih =>
    rw [List.cons_append, List.cons_append, endsAttribute]
    exact ih
  | @string q body u hq hbody _ ih =>
    have hback := Item.quote_ne_backslash hq
    have hbracket : q ≠ ']' := by rcases hq with rfl | rfl <;> decide
    have hquote : (q == '\x22' || q == '\x27') = true := by simpa using hq
    have hclose := closeString_append_right hback hbody (u ++ s)
    rw [List.append_assoc, List.cons_append, endsAttribute.eq_4 _ _ (fun hc => absurd hc hbracket)
      (fun _ _ hc => absurd hc hback), if_pos hquote]
    split <;> rename_i heq <;> rw [hclose] at heq <;> cases heq
    exact ih

theorem endsAttribute_iff :
    endsAttribute s = true ↔ ∃ u, s = u ++ [']'] ∧ Unbracketed u := by
  constructor
  · intro h
    fun_induction endsAttribute s with
    | case1 | case5 | case6 => cases h
    | case2 => exact ⟨[], rfl, .nil⟩
    | case3 c rest ih =>
      obtain ⟨u, rfl, hu⟩ := ih h
      exact ⟨'\\' :: c :: u, rfl, .escape c hu⟩
    | case4 q rest _ _ hquote body behind hbody ih =>
      obtain ⟨u, rfl, hu⟩ := ih h
      have hq : q = '\x22' ∨ q = '\x27' := by simpa using hquote
      refine ⟨q :: body ++ u, ?_, .string hq (closeString_self hbody) hu⟩
      rw [closeString_append hbody, List.append_assoc]
      rfl
    | case7 c rest _ _ hquote hbracket ih =>
      obtain ⟨u, rfl, hu⟩ := ih h
      refine ⟨c :: u, rfl, .bare ?_ hu⟩
      simp_all
  · rintro ⟨u, rfl, hu⟩
    rw [endsAttribute_append hu]
    simp [endsAttribute]

theorem iff_endsAttribute : Unbracketed u ↔ endsAttribute (u ++ [']']) = true := by
  rw [endsAttribute_iff]
  constructor
  · exact fun hu => ⟨u, rfl, hu⟩
  · rintro ⟨u', heq, hu⟩
    rwa [List.append_cancel_right heq]

/-- A beginning of this form may be left out. -/
theorem append_iff (hu : Unbracketed u) : Unbracketed (u ++ v) ↔ Unbracketed v := by
  rw [iff_endsAttribute, iff_endsAttribute, List.append_assoc, endsAttribute_append hu]

end Unbracketed

/-! ## The name of an attribute -/

/-- The start of an attribute selector, behind the bracket: blanks, a namespace perhaps, and the
name, behind which no atom stands. -/
theorem attributeName?_eq_some_iff {group name : Text} :
    attributeName? group = some name ↔
      ∃ space rest, readQualified? readName? (group.dropWhile Text.isBlank) =
        some (space, name, rest) ∧ endsAttribute rest = true := by
  unfold attributeName?
  constructor
  · intro h
    split at h
    · rename_i space name' rest hread
      split at h
      · rename_i hends
        cases h
        exact ⟨space, rest, hread, hends⟩
      · cases h
    · cases h
  · rintro ⟨space, rest, hread, hends⟩
    rw [hread]
    simp only [hends, if_true]

section

variable {s space name x y t : Text}

theorem readName?_eq_some_iff :
    readName? s = some (name, x) ↔ name ≠ [] ∧ Identifier.read s = (name, x) := by
  obtain ⟨n, r, hread⟩ : ∃ n r, Identifier.read s = (n, r) := ⟨_, _, rfl⟩
  rw [Selector.readName?_of_read hread, hread]
  by_cases hn : n = []
  · rw [if_pos hn]
    refine iff_of_false (by simp) ?_
    rintro ⟨hne, heq⟩
    cases heq
    exact hne hn
  · rw [if_neg hn]
    constructor
    · intro heq
      cases heq
      exact ⟨hn, rfl⟩
    · rintro ⟨-, heq⟩
      cases heq
      rfl

theorem readName?_eq_none (h : Identifier.Atom.read? s = none) : readName? s = none := by
  rw [Selector.readName?_of_read (Selector.read_stop h), if_pos rfl]

/-- An identifier that is not empty is the name of a namespace too. -/
theorem readNamespaceName_of_read (h : Identifier.read s = (name, x)) (hs : s.head? ≠ some '*') :
    readNamespaceName s = (name, x) := by
  cases s with
  | nil => exact h
  | cons c s => rwa [Selector.readNamespaceName_of_ne fun hc => hs (by rw [hc]; rfl)]

/-- No identifier begins with an asterisk. -/
theorem head?_ne_star (h : Identifier.read s = (name, x)) (hne : name ≠ []) :
    s.head? ≠ some '*' := by
  intro hstar
  obtain ⟨r, rfl⟩ := List.head?_eq_some_iff.1 hstar
  rw [Selector.read_stop rfl] at h
  cases h
  exact hne rfl

theorem readNamespaceName_congr (h : readNamespaceName s = (name, '|' :: x)) (y : Text) :
    readNamespaceName (name ++ '|' :: y) = (name, '|' :: y) := by
  unfold readNamespaceName at h
  split at h
  · cases h
    rfl
  · have hread : Identifier.read (name ++ '|' :: y) = (name, '|' :: y) :=
      Identifier.read_congr h rfl fun c hc => .inl hc
    apply readNamespaceName_of_read hread
    by_cases hne : name = []
    · simp [hne]
    · exact head?_ne_star hread hne

/-- A qualified name is read again with another text behind it, if no atom stands there, nor behind
a bar there that could make the name a namespace. -/
theorem readQualified?_congr (h : readQualified? readName? s = some (space, name, x))
    (hstop : Identifier.Atom.read? y = none)
    (hy : ∀ c ∈ y.head?, c ∈ x.head? ∨
      Identifier.isHexDigit c = false ∧ Text.isBlank c = false)
    (hbar : space = [] → ∀ t, y = '|' :: t → Identifier.Atom.read? t = none) :
    readQualified? readName? (space ++ name ++ y) = some (space, name, y) := by
  rcases readQualified?_eq_some h with ⟨t, hspace, hname⟩ | ⟨rfl, hname⟩
  · obtain ⟨n, r, hread⟩ : ∃ n r, readNamespaceName s = (n, r) := ⟨_, _, rfl⟩
    obtain ⟨rfl, rfl, hequal⟩ := (Selector.readNamespace?_eq_some_iff hread).1 hspace
    obtain ⟨hne, hname⟩ := readName?_eq_some_iff.1 hname
    have hagain : readName? (name ++ y) = some (name, y) :=
      readName?_eq_some_iff.2 ⟨hne, Identifier.read_congr hname hstop hy⟩
    have happ := Identifier.read_append t
    rw [hname] at happ
    have hhead : (name ++ y).head? ≠ some '=' := by
      obtain ⟨c, cs, rfl⟩ := List.exists_cons_of_ne_nil hne
      rw [← happ] at hequal
      exact hequal
    have hspace' : readNamespace? (n ++ '|' :: (name ++ y)) = some (n ++ ['|'], name ++ y) :=
      (Selector.readNamespace?_eq_some_iff (readNamespaceName_congr hread _)).2
        ⟨rfl, rfl, hhead⟩
    have htext : n ++ ['|'] ++ name ++ y = n ++ '|' :: (name ++ y) := by simp
    rw [htext]
    simp only [readQualified?, hspace', hagain]
  · obtain ⟨hne, hname⟩ := readName?_eq_some_iff.1 hname
    have hread := Identifier.read_congr hname hstop hy
    have hagain : readName? (name ++ y) = some (name, y) := readName?_eq_some_iff.2 ⟨hne, hread⟩
    have hnamespace := readNamespaceName_of_read hread (head?_ne_star hread hne)
    rw [List.nil_append]
    cases hfound : readNamespace? (name ++ y) with
    | none =>
      simp only [readQualified?, hfound, hagain]
      rfl
    | some found =>
      obtain ⟨space, t⟩ := found
      obtain ⟨-, hy', -⟩ := (Selector.readNamespace?_eq_some_iff hnamespace).1 hfound
      simp only [readQualified?, hfound, readName?_eq_none (hbar rfl t hy'), hagain]
      rfl

theorem stops_of_readName?_eq_none (h : readName? s = none) : Identifier.Atom.read? s = none := by
  cases hread : Identifier.Atom.read? s with
  | none => rfl
  | some found =>
    obtain ⟨a, rest⟩ := found
    have hlonger := Identifier.read_some hread
    rw [Selector.readName?_of_read hlonger, if_neg (by simp [a.text_ne_nil])] at h
    cases h

/-- A name without a namespace would be one itself if a name stood behind a bar. -/
theorem stop_behind_bar (h : readQualified? readName? s = some ([], name, '|' :: t)) :
    Identifier.Atom.read? t = none := by
  rcases readQualified?_eq_some h with ⟨r, hspace, -⟩ | ⟨-, hname⟩
  · have hnil := ((Selector.readNamespace?_eq_some_iff rfl).1 hspace).1
    simp at hnil
  · obtain ⟨hne, hread⟩ := readName?_eq_some_iff.1 hname
    have hnamespace := readNamespaceName_of_read hread (head?_ne_star hread hne)
    by_cases hequal : t.head? = some '='
    · obtain ⟨r, rfl⟩ := List.head?_eq_some_iff.1 hequal
      rfl
    · have hspace := (Selector.readNamespace?_eq_some_iff hnamespace).2 ⟨rfl, rfl, hequal⟩
      apply stops_of_readName?_eq_none
      cases hlocal : readName? t with
      | none => rfl
      | some found =>
        simp only [readQualified?, hspace, hlocal, Option.some.injEq, Prod.mk.injEq] at h
        simp at h

/-- What is read as a qualified name. -/
theorem readQualified?_name_eq_some (h : readQualified? readName? s = some (space, name, x)) :
    s = space ++ name ++ x ∧ IsNamespace space ∧ IsIdentifier name ∧
      Identifier.Atom.read? x = none := by
  rcases readQualified?_eq_some h with ⟨t, hspace, hname⟩ | ⟨rfl, hname⟩
  · refine ⟨?_, isNamespace_of_readNamespace? hspace, isIdentifier_of_readName? hname,
      stops_of_readName? hname⟩
    rw [readNamespace?_append hspace, readName?_append hname, List.append_assoc]
  · exact ⟨readName?_append hname, .inl rfl, isIdentifier_of_readName? hname,
      stops_of_readName? hname⟩

end

/-! ## Items of names -/

section

variable {u v w : Text}

theorem Items.append (hu : Items u (v ++ w)) (hv : Items v w) : Items (u ++ v) w := by
  generalize hx : v ++ w = x at hu
  induction hu with
  | nil => exact hv
  | @cons item u x hitem hu ih =>
    subst hx
    rw [List.append_assoc]
    refine .cons ?_ (ih rfl)
    rwa [List.append_assoc]

/-- Nothing in an identifier is shielded but what its escapes hold. -/
theorem Items.of_spells {as : List Identifier.Atom} (h : Identifier.Spells u as) (v : Text) :
    Items u v := by
  induction h with
  | nil => exact .nil v
  | @plain c s as hname _ ih =>
    have hc : c ≠ '\\' ∧ ¬ (c = '\x22' ∨ c = '\x27') ∧ c ≠ '/' := by
      refine ⟨?_, ?_, ?_⟩
      · rintro rfl
        cases hname
      · rintro (rfl | rfl) <;> cases hname
      · rintro rfl
        cases hname
    have hitem : Item.Taken (.bare c) (s ++ v) :=
      .bare hc.1 hc.2.1 fun hslash => absurd hslash hc.2.2
    exact .cons hitem ih
  | @code digits terminator s as hne _ hdigits _ hblank _ _ ih =>
    obtain ⟨d, ds, rfl⟩ := List.exists_cons_of_ne_nil hne
    have hbare : ∀ c ∈ ds ++ terminator.toList, c ∉ ['\\', '\x22', '\x27', '/'] := by
      intro c hc hshield
      have hfree : Identifier.isHexDigit c = false ∧ Text.isBlank c = false := by
        revert hshield
        simp only [List.mem_cons, List.not_mem_nil, or_false]
        rintro (rfl | rfl | rfl | rfl) <;> exact ⟨rfl, rfl⟩
      rcases List.mem_append.1 hc with hc | hc
      · rw [hdigits c (List.mem_cons_of_mem d hc)] at hfree
        cases hfree.1
      · rw [hblank c (Option.mem_toList.1 hc)] at hfree
        cases hfree.2
    have hrest : Items (ds ++ terminator.toList ++ s) v := (Items.of_bare hbare (s ++ v)).append ih
    rw [show '\\' :: d :: ds ++ terminator.toList ++ s =
      (Item.shielded ['\\', d]).text ++ (ds ++ terminator.toList ++ s) from rfl]
    exact .cons (.escape d _) hrest
  | @escaped c s as hhex hline _ ih => exact .cons (.escape c _) ih

theorem Items.of_namespace (h : IsNamespace u) (v : Text) : Items u v := by
  have hbar : ∀ w, Items ['|'] w := fun w => .of_bare (by simp) w
  rcases h with rfl | ⟨name, rfl, rfl | rfl | hname⟩
  · exact .nil v
  · exact hbar v
  · exact .append (.of_bare (by simp) _) (hbar v)
  · obtain ⟨-, as, hspells⟩ := hname
    exact .append (.of_spells hspells _) (hbar v)

/-- Where no atom stands before the items of a text, none stands there with another text behind
them. -/
theorem stop_congr (hu : Items u v) (h : Identifier.Atom.read? (u ++ v) = none)
    (hw : Identifier.Atom.read? w = none) : Identifier.Atom.read? (u ++ w) = none := by
  cases hu with
  | nil => exact hw
  | @cons item u _ hitem hu =>
    rw [List.append_assoc] at h ⊢
    cases hitem with
    | @bare c _ hback =>
      apply Selector.atom_none ?_ hback
      rw [← Bool.not_eq_true]
      intro hname
      cases (Selector.atom_plain hname (u ++ v)).symm.trans h
    | escape c =>
      have hread : ∀ r, Identifier.Atom.read? ('\\' :: c :: r) = none ↔
          Identifier.isHexDigit c = false ∧ Text.isLineEnd c = true := by
        intro r
        simp only [Identifier.Atom.read?]
        split
        · simp_all
        · split <;> simp_all
      exact (hread _).2 ((hread _).1 h)
    | comment hbody => rfl
    | string hq hbody => rcases hq with rfl | rfl <;> rfl

end

/-! ## Attribute selectors -/

namespace Selector

variable {group name : Text}

theorem combinator_bracket (group : Text) :
    Combinator.read ('[' :: group) = (⟨[], [], []⟩, '[' :: group) := by
  have hspacing : takeSpacing ('[' :: group) = ([], '[' :: group) :=
    takeSpacing_first rfl (by simp)
  have hsymbol : takeSymbol ('[' :: group) = ([], '[' :: group) := rfl
  simp only [Combinator.read, hspacing, hsymbol]

/-- What is read of a text that begins with a bracket is read from that bracket on. -/
theorem parse_bracket (group : Text) :
    parse ('[' :: group) =
      match Part.readAttribute group with
      | .error fault => .error (faultError ('[' :: group) ('[' :: group) fault)
      | .ok (part, rest) =>
        match consPart part (parseParts ('[' :: group) rest) with
        | .error e => .error e
        | .ok (parts, after) => .ok ⟨parts, [], after⟩ := by
  have hlead : takeLead ('[' :: group) = ([], '[' :: group) := by
    rw [takeLead, combinator_bracket]
    rfl
  have hraw : (Combinator.read ('[' :: group)).1.raw = [] := by
    rw [combinator_bracket]
    rfl
  have hpart : Part.read '[' group = Part.readAttribute group := rfl
  rw [parse, hlead, parseParts_part hraw, hpart]
  cases Part.readAttribute group with
  | error fault => rfl
  | ok found =>
    obtain ⟨part, rest⟩ := found
    simp only
    cases parseParts ('[' :: group) rest with
    | error e => rfl
    | ok result => rfl

/-- A group that is closed at its end is an attribute selector if it names an attribute. -/
theorem parse_group (h : closeGroup ']' [] group = .ok (group, [])) :
    parse ('[' :: group) =
      match attributeName? group with
      | some name => .ok ⟨[⟨.attribute, name, '[' :: group⟩], [], []⟩
      | none => .error (.unexpected '[' 0 ('[' :: group)) := by
  rw [parse_bracket, Part.readAttribute, h]
  cases hname : attributeName? group with
  | none => simp [hname, faultError]
  | some name =>
    simp only [hname, parseParts_nil]
    rfl

theorem group_of_parse
    (h : parse ('[' :: group) = .ok ⟨[⟨.attribute, name, '[' :: group⟩], [], []⟩) :
    closeGroup ']' [] group = .ok (group, []) ∧ attributeName? group = some name := by
  rw [parse_bracket] at h
  split at h
  · cases h
  · rename_i part rest hpart
    split at h
    · cases h
    · rename_i parts after hparts
      obtain ⟨ps, hrest, rfl⟩ := consPart_eq_ok_iff.1 hparts
      cases h
      have hnil : [] = rest := parseParts_raw hrest
      obtain ⟨g, n, hgroup, hname, heq⟩ := Part.exists_of_readAttribute hpart
      cases heq
      rw [← hnil] at hgroup
      exact ⟨hgroup, hname⟩

end Selector

/-! ## Comments in attribute selectors -/

/-- A comment, from its opening mark to its closing one. -/
def commentOf (body : Text) : Text := '/' :: '*' :: body ++ ['*', '/']

theorem taken_commentOf {body : Text} (hbody : ¬ ['*', '/'] <:+: body) (r : Text) :
    Item.Taken (.shielded (commentOf body)) r :=
  .comment (closeComment_body hbody) r

section

variable {group name body : Text}

/-- A comment behind some blanks of a group leaves it a group. -/
theorem closeGroup_comment {u v : Text} (hbody : ¬ ['*', '/'] <:+: body) (hitems : Items u v)
    (hv : v ≠ []) (h : closeGroup ']' [] (u ++ v) = .ok (u ++ v, [])) :
    closeGroup ']' [] (u ++ (commentOf body ++ v)) = .ok (u ++ (commentOf body ++ v), []) :=
  closeGroup_insert (taken_commentOf hbody) (by simp [commentOf]) (by simp [commentOf]) hitems hv h

/-- No attribute is named behind a comment. -/
theorem attributeName?_comment {blanks : Text} (hblanks : ∀ c ∈ blanks, Text.isBlank c = true)
    (behind : Text) : attributeName? (blanks ++ (commentOf body ++ behind)) = none := by
  have hdrop : (blanks ++ (commentOf body ++ behind)).dropWhile Text.isBlank =
      commentOf body ++ behind := by
    rw [List.dropWhile_append_of_pos hblanks]
    rfl
  have hstop : Identifier.Atom.read? (commentOf body ++ behind) = none := rfl
  have hread := Selector.read_stop hstop
  have hnamespace : readNamespace? (commentOf body ++ behind) = none := by
    have hname := readNamespaceName_of_read hread (by simp [commentOf])
    unfold readNamespace?
    rw [hname]
    rfl
  rw [attributeName?, hdrop, readQualified?, hnamespace, readName?_eq_none hstop]
  rfl

theorem dropWhile_blanks {blanks s : Text} (hblanks : ∀ c ∈ blanks, Text.isBlank c = true)
    (hs : ∀ c ∈ s.head?, Text.isBlank c = false) :
    (blanks ++ s).dropWhile Text.isBlank = s := by
  rw [List.dropWhile_append_of_pos hblanks]
  cases s with
  | nil => rfl
  | cons c s => rw [List.dropWhile_cons_of_neg (by simp [hs c rfl])]

/-- The text of an attribute selector, cut up: blanks, a namespace perhaps, the name, and what
stands behind it. -/
theorem exists_of_attributeName? (h : attributeName? group = some name) :
    ∃ blanks space tail, group = blanks ++ (space ++ name ++ (tail ++ [']'])) ∧
      (∀ c ∈ blanks, Text.isBlank c = true) ∧
      (∀ c ∈ (space ++ name).head?, Text.isBlank c = false) ∧ Unbracketed tail ∧
      readQualified? readName? (space ++ name ++ (tail ++ [']'])) =
        some (space, name, tail ++ [']']) := by
  obtain ⟨space, rest, hread, hends⟩ := attributeName?_eq_some_iff.1 h
  obtain ⟨tail, rfl, htail⟩ := Unbracketed.endsAttribute_iff.1 hends
  obtain ⟨htext, -, -, -⟩ := readQualified?_name_eq_some hread
  have happ := List.takeWhile_append_dropWhile (p := Text.isBlank) (l := group)
  rw [htext] at happ
  refine ⟨group.takeWhile Text.isBlank, space, tail, happ.symm, fun c => List.mem_takeWhile_imp,
    fun c hc => ?_, htail, htext ▸ hread⟩
  -- the blanks end where the name or its namespace begins
  have hfirst : c ∈ (group.dropWhile Text.isBlank).head? := by
    rw [htext]
    exact List.mem_head?_append_of_mem_head? hc
  have hnot := List.head?_dropWhile_not Text.isBlank group
  rw [Option.mem_def.1 hfirst] at hnot
  simpa using hnot

/-- A comment between items behind the name of an attribute leaves the name as it is, so what stands
behind the name decides. -/
theorem attributeName?_insert {blanks space u x : Text}
    (hblanks : ∀ c ∈ blanks, Text.isBlank c = true)
    (hhead : ∀ c ∈ (space ++ name).head?, Text.isBlank c = false)
    (hread : readQualified? readName? (space ++ name ++ (u ++ x)) = some (space, name, u ++ x))
    (hu : Items u x) :
    attributeName? (blanks ++ (space ++ name ++ (u ++ (commentOf body ++ x)))) =
      if endsAttribute (u ++ (commentOf body ++ x)) then some name else none := by
  obtain ⟨-, -, hname, hstop⟩ := readQualified?_name_eq_some hread
  have hcomment : Identifier.Atom.read? (commentOf body ++ x) = none := rfl
  have hstop' := stop_congr hu hstop hcomment
  have hy : ∀ c ∈ (u ++ (commentOf body ++ x)).head?, c ∈ (u ++ x).head? ∨
      Identifier.isHexDigit c = false ∧ Text.isBlank c = false := by
    intro c hc
    cases u with
    | nil =>
      cases hc
      exact .inr ⟨rfl, rfl⟩
    | cons d u => exact .inl hc
  have hbar : space = [] → ∀ t, u ++ (commentOf body ++ x) = '|' :: t →
      Identifier.Atom.read? t = none := by
    rintro rfl t ht
    cases hu with
    | nil => cases ht
    | @cons item u _ hitem hu =>
      -- the bar is an item of its own
      cases hitem with
      | bare =>
        cases ht
        exact stop_congr hu (stop_behind_bar hread) hcomment
      | escape => cases ht
      | comment => cases ht
      | string hq => rcases hq with rfl | rfl <;> cases ht
  have hagain := readQualified?_congr hread hstop' hy hbar
  have hfirst : ∀ c ∈ (space ++ name ++ (u ++ (commentOf body ++ x))).head?,
      Text.isBlank c = false := by
    obtain ⟨c, cs, hcs⟩ := List.exists_cons_of_ne_nil
      (List.append_ne_nil_of_right_ne_nil space hname.1)
    rw [hcs] at hhead ⊢
    exact hhead
  rw [attributeName?, dropWhile_blanks hblanks hfirst, hagain]

end

namespace Selector

variable {group name body : Text}

/-- An attribute selector with a comment put into it, at a place outside strings, escapes and
comments. Among the blanks before the name, the comment makes it no attribute selector. Behind the
name, it is one with the same name exactly when what stands behind the name is still made of
escapes, strings and characters that are neither quote nor bracket, where the comment is read like
any other text; so it is if the comment, and the text from the name to it, are made of these. -/
theorem parse_attribute_comment
    (h : parse ('[' :: group) = .ok ⟨[⟨.attribute, name, '[' :: group⟩], [], []⟩)
    (hbody : ¬ ['*', '/'] <:+: body) :
    (∀ blanks behind, group = blanks ++ behind → (∀ c ∈ blanks, Text.isBlank c = true) →
      let commented := '[' :: (blanks ++ (commentOf body ++ behind))
      parse commented = .error (.unexpected '[' 0 commented)) ∧
    ∃ blanks space tail, group = blanks ++ (space ++ name ++ (tail ++ [']'])) ∧
      (∀ c ∈ blanks, Text.isBlank c = true) ∧
      readQualified? readName? (space ++ name ++ (tail ++ [']'])) =
        some (space, name, tail ++ [']']) ∧
      ∀ u v, tail = u ++ v → Items u (v ++ [']']) →
        let commented :=
          '[' :: (blanks ++ (space ++ name ++ (u ++ (commentOf body ++ (v ++ [']'])))))
        (Unbracketed (u ++ (commentOf body ++ v)) →
          parse commented = .ok ⟨[⟨.attribute, name, commented⟩], [], []⟩) ∧
        (¬ Unbracketed (u ++ (commentOf body ++ v)) →
          parse commented = .error (.unexpected '[' 0 commented)) ∧
        (Unbracketed u → Unbracketed (commentOf body) →
          Unbracketed (u ++ (commentOf body ++ v))) := by
  obtain ⟨hclose, hname⟩ := group_of_parse h
  refine ⟨fun blanks behind hgroup hblanks => ?_, ?_⟩
  · subst hgroup
    have hbehind : behind ≠ [] := by
      -- a group ends with a bracket, which is no blank
      rintro rfl
      rw [List.append_nil] at hclose
      obtain ⟨b, c, hlast, hc⟩ := closeGroup_last hclose
      have hblank := hblanks c (by rw [hlast]; simp)
      rcases hc with rfl | rfl <;> cases hblank
    intro commented
    rw [parse_group (closeGroup_comment hbody (.of_blanks hblanks behind) hbehind hclose),
      attributeName?_comment hblanks]
  · obtain ⟨blanks, space, tail, rfl, hblanks, hhead, htail, hread⟩ :=
      exists_of_attributeName? hname
    obtain ⟨-, hspace, hidentifier, -⟩ := readQualified?_name_eq_some hread
    refine ⟨blanks, space, tail, rfl, hblanks, hread, ?_⟩
    rintro u v rfl hitems commented
    have hidentifierItems : ∀ w, Items name w := by
      obtain ⟨-, as, hspells⟩ := hidentifier
      exact fun w => .of_spells hspells w
    have hfront : Items (blanks ++ (space ++ (name ++ u))) (v ++ [']']) :=
      .append (.of_blanks hblanks _) (.append (.of_namespace hspace _)
        (.append (hidentifierItems _) hitems))
    have hgroup : closeGroup ']' []
        (blanks ++ (space ++ name ++ (u ++ (commentOf body ++ (v ++ [']']))))) =
          .ok (blanks ++ (space ++ name ++ (u ++ (commentOf body ++ (v ++ [']'])))), []) := by
      have hinserted := closeGroup_comment hbody hfront (by simp)
        (by simpa only [List.append_assoc] using hclose)
      simpa only [List.append_assoc] using hinserted
    have hnamed : attributeName?
        (blanks ++ (space ++ name ++ (u ++ (commentOf body ++ (v ++ [']']))))) =
          if endsAttribute (u ++ (commentOf body ++ (v ++ [']']))) then some name else none := by
      apply attributeName?_insert hblanks hhead ?_ hitems
      simpa only [List.append_assoc] using hread
    have hends : endsAttribute (u ++ (commentOf body ++ (v ++ [']']))) = true ↔
        Unbracketed (u ++ (commentOf body ++ v)) := by
      rw [Unbracketed.iff_endsAttribute]
      simp only [List.append_assoc]
    rw [show commented = '[' :: _ from rfl, parse_group hgroup, hnamed]
    refine ⟨fun hmade => ?_, fun hmade => ?_, fun hu hcomment => ?_⟩
    · rw [if_pos (hends.2 hmade)]
    · rw [if_neg fun htrue => hmade (hends.1 htrue)]
    · exact hu.append_iff.2 (hcomment.append_iff.2 (hu.append_iff.1 htail))

/-- A comment before the operator of a condition. -/
theorem parse_attribute_comment_operator :
    parse ['[', 'a', '=', 'b', ']'] =
        .ok ⟨[⟨.attribute, ['a'], ['[', 'a', '=', 'b', ']']⟩], [], []⟩ ∧
      ¬ ['*', '/'] <:+: ['c'] ∧
      parse ['[', 'a', '/', '*', 'c', '*', '/', '=', 'b', ']'] = .ok
        ⟨[⟨.attribute, ['a'], ['[', 'a', '/', '*', 'c', '*', '/', '=', 'b', ']']⟩], [], []⟩ := by
  have hparse : parse ['[', 'a', '=', 'b', ']'] =
      .ok ⟨[⟨.attribute, ['a'], ['[', 'a', '=', 'b', ']']⟩], [], []⟩ := by decide +kernel
  have hbody : ¬ ['*', '/'] <:+: ['c'] := by decide
  refine ⟨hparse, hbody, ?_⟩
  obtain ⟨-, blanks, space, tail, hgroup, hblanks, hread, hplaces⟩ :=
    parse_attribute_comment hparse hbody
  have hnone : blanks = [] := by
    cases blanks with
    | nil => rfl
    | cons c blanks =>
      obtain ⟨rfl, -⟩ := List.cons.inj hgroup
      have hblank : Text.isBlank 'a' = true := hblanks 'a' List.mem_cons_self
      cases hblank
  subst hnone
  rw [List.nil_append] at hgroup
  have hname : readQualified? readName? ['a', '=', 'b', ']'] =
      some ([], ['a'], ['=', 'b', ']']) := by decide +kernel
  rw [← hgroup, hname] at hread
  simp only [Option.some.injEq, Prod.mk.injEq] at hread
  obtain ⟨rfl, -, htail⟩ := hread
  have hcut : ['=', 'b'] ++ [']'] = tail ++ [']'] := htail
  have htail' := List.append_cancel_right hcut
  subst htail'
  have hmade : Unbracketed ([] ++ (commentOf ['c'] ++ ['=', 'b'])) :=
    Unbracketed.iff_endsAttribute.2 (by decide +kernel)
  exact (hplaces [] ['=', 'b'] rfl (.nil _)).1 hmade

/-- A comment before the name, where blanks may stand. -/
theorem parse_comment_before_name :
    parse "[a]".toList = .ok ⟨[⟨.attribute, ['a'], "[a]".toList⟩], [], []⟩ ∧
      parse "[/**/a]".toList = .error (.unexpected '[' 0 "[/**/a]".toList) := by
  constructor <;> decide +kernel

end Selector

end StylePrune
