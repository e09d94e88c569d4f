import StylePrune.Proofs.Escapes

/-!
# Cutting heads at commas

The head of a rule is cut at its commas in items, while the reader of stylesheets took it in tokens.
An item begins where the reader may be between two tokens or in a chunk, so each piece of a head
can be read as a head too, behind a comma (`splitCommas_flat`), and is cut nowhere when it is looked
at again (`splitCommas_alone`). Pieces of a head, joined by commas, are therefore cut into the same
pieces, whichever of them are left out.

* **`Aligned`** — the modes in which an item may begin.
* **`Alone`** — a text that is one piece, whatever piece stands behind it.
* **`Selector.Sound`**, **`Selector.parseList_of_sound`** — selectors of one list are read again
  when some of them are left out.
-/

namespace StylePrune

open Mode Text

/-! ## Items and modes -/

/-- An item may begin here: the reader is in no string, comment or escape, and the text does not
continue a slash to the start of a comment. -/
def Aligned (m : Mode) (s : Text) : Prop :=
  (m.rests = true ∨ m = .atSign) ∧ (m = .slash → s.head? ≠ some '*')

namespace Mode

variable {m k : Mode} {c : Char}

theorem step_slash (h : m.rests = true) : m.step '/' = some .slash := by
  cases m <;> first | rfl | cases h

theorem step_comma (h : m.rests = true) : m.step ',' = some .word := by
  cases m <;> first | rfl | cases h

theorem step_quote {q : Char} (hq : q = '\x22' ∨ q = '\x27') (h : m.rests = true) :
    m.step q = some (.string q) := by
  rcases hq with rfl | rfl <;> cases m <;> first | rfl | cases h

theorem step_backslash (h : m.rests = true ∨ m = .atSign) :
    ∃ inKeyword, m.step '\\' = some (.escape inKeyword) := by
  rcases h with h | rfl
  · cases m <;> first | exact ⟨_, rfl⟩ | cases h
  · exact ⟨true, rfl⟩

theorem begin_bare (h : begin c = some k) (hback : c ≠ '\\')
    (hquote : ¬ (c = '\x22' ∨ c = '\x27')) :
    (k.rests = true ∨ k = .atSign) ∧ (k = .slash → c = '/') := by
  unfold begin at h
  split at h
  · cases h
    simp [rests]
  · split at h
    · rename_i hslash
      cases h
      simpa [rests] using hslash
    · split at h
      · cases h
        simp
      · split at h
        · rename_i hback'
          exact absurd (by simpa using hback') hback
        · split at h
          · rename_i hquote'
            exact absurd (by simpa using hquote') hquote
          · split at h
            · cases h
            · cases h
              simp [rests]

/-- A character that shields nothing leads from where an item may begin to where one may. -/
theorem step_bare (h : m.step c = some k) (hm : m.rests = true ∨ m = .atSign)
    (hslash : m = .slash → c ≠ '*') (hback : c ≠ '\\') (hquote : ¬ (c = '\x22' ∨ c = '\x27')) :
    (k.rests = true ∨ k = .atSign) ∧ (k = .slash → c = '/') := by
  by_cases hcase : m = .slash ∨ m = .atSign
  · rcases hcase with rfl | rfl
    · have hstep : step .slash c = begin c := by simp [step, hslash rfl]
      exact begin_bare (hstep.symm.trans h) hback hquote
    · have hk : k = .keyword := by
        simp only [step, hback, beq_iff_eq, if_false] at h
        split at h
        · cases h
          rfl
        · cases h
      subst hk
      simp [rests]
  · rw [not_or] at hcase
    -- any other mode is no more permissive than a chunk
    have hrest : m.rests = true := hm.resolve_right hcase.2
    obtain ⟨n, hn, hle⟩ := step_le_word (.inl hrest) hcase.1 h
    have hn' : (n.rests = true ∨ n = .atSign) ∧ (n = .slash → c = '/') := by
      by_cases hat : c = '@'
      · rw [goOn, if_pos (by simpa using hat)] at hn
        cases hn
        simp [rests]
      · exact begin_bare ((goOn_eq_begin hat).symm.trans hn) hback hquote
    cases hle with
    | refl => exact hn'
    | closed => simp [rests]
    | escape => simp [rests] at hn'
    | word hk hs => exact ⟨hk, fun hk' => absurd hk' hs⟩

end Mode

namespace Item

/-- What an item is that was taken from a text: shielded text ends where it is closed, and a slash
begins no comment. -/
inductive Taken : Item → Text → Prop where
  | bare {c : Char} {rest : Text} (hback : c ≠ '\\') (hquote : ¬ (c = '\x22' ∨ c = '\x27'))
      (hslash : c = '/' → rest.head? ≠ some '*') : Taken (.bare c) rest
  | escape (c : Char) (rest : Text) : Taken (.shielded ['\\', c]) rest
  | comment {body : Text} (hbody : closeComment body = some (body, [])) (rest : Text) :
      Taken (.shielded ('/' :: '*' :: body)) rest
  | string {q : Char} {body : Text} (hq : q = '\x22' ∨ q = '\x27')
      (hbody : closeString true q body = some (body, [])) (rest : Text) :
      Taken (.shielded (q :: body)) rest

theorem quote_ne_backslash {q : Char} (h : q = '\x22' ∨ q = '\x27') : q ≠ '\\' := by
  rcases h with rfl | rfl <;> decide

/-- The item at the start of a text, unless that is a single backslash. -/
theorem taken_of_next {s rest : Text} {item : Item} (h : next s = .ok (some (item, rest)))
    (hs : s ≠ ['\\']) : Taken item rest := by
  unfold next at h
  split at h
  · cases h
  · cases h
    exact .escape _ _
  · split at h
    · rename_i hbody
      cases h
      exact .comment (closeComment_self hbody) _
    · cases h
  · rename_i c r hesc hcomment
    split at h
    · rename_i hback
      rw [beq_iff_eq] at hback
      subst hback
      cases r with
      | nil => exact absurd rfl hs
      | cons d r => exact absurd rfl (hesc d r rfl)
    · rename_i hback
      split at h
      · rename_i hquote
        have hq : c = '\x22' ∨ c = '\x27' := by simpa using hquote
        split at h
        · rename_i hbody
          cases h
          exact .string hq (closeString_self hbody) _
        · cases h
      · rename_i hquote
        cases h
        refine .bare (by simpa using hback) (by simpa using hquote) fun hslash hstar => ?_
        cases rest with
        | nil => cases hstar
        | cons d r =>
          cases hstar
          exact hcomment r hslash rfl

theorem Taken.dangles {item : Item} {rest : Text} (h : Taken item rest) :
    Text.dangles item.text = false := by
  cases h with
  | bare hback => exact dangles_concat hback []
  | escape c => rfl
  | @comment body hbody =>
    obtain ⟨b, rfl⟩ := closeComment_last hbody
    exact dangles_concat (by decide) ('/' :: '*' :: b)
  | @string q body hq hbody =>
    obtain ⟨b, rfl⟩ := closeString_last hbody
    exact dangles_concat (quote_ne_backslash hq) (q :: b)

/-- The item at the start of a text that does not end in half an escape, and what is behind it does
not either. -/
theorem next_dangles {s rest : Text} {item : Item} (h : next s = .ok (some (item, rest)))
    (hs : Text.dangles s = false) : Taken item rest ∧ Text.dangles rest = false := by
  have htaken := taken_of_next h fun hback => by
    rw [hback] at hs
    cases hs
  rw [next_append h, dangles_append htaken.dangles] at hs
  exact ⟨htaken, hs⟩

theorem Taken.next {item : Item} {rest : Text} (h : Taken item rest) :
    Item.next (item.text ++ rest) = .ok (some (item, rest)) := by
  cases h with
  | @bare c rest hback hquote hslash =>
    have hne : ∀ r, c = '/' → rest = '*' :: r → False := by
      rintro r hc rfl
      exact hslash hc rfl
    show Item.next (c :: rest) = _
    rw [Item.next.eq_4 c rest (fun _ _ h => absurd h hback) hne, if_neg (by simpa using hback),
      if_neg (by simpa using hquote)]
  | escape c rest => rfl
  | comment hbody rest =>
    have hclose := closeComment_append_right hbody rest
    simp only [text, List.cons_append, Item.next, hclose, List.nil_append]
  | @string q body hq hbody rest =>
    have hclose := closeString_append_right (quote_ne_backslash hq) hbody rest
    rcases hq with rfl | rfl
    · simp [text, Item.next, hclose]
    · simp [text, Item.next, hclose]

/-- An item is taken from another text too if that goes on with an asterisk only where the first one
does. -/
theorem Taken.congr {item : Item} {rest r : Text} (h : Taken item rest)
    (hr : r.head? = some '*' → rest.head? = some '*') : Taken item r := by
  cases h with
  | bare hback hquote hslash => exact .bare hback hquote fun hc hstar => hslash hc (hr hstar)
  | escape c => exact .escape c r
  | comment hbody => exact .comment hbody r
  | string hq hbody => exact .string hq hbody r

/-- A character that shields nothing is taken before any text, unless it is a slash. -/
theorem next_bare {s rest : Text} {c : Char} (h : Item.next s = .ok (some (.bare c, rest)))
    (hc : c ≠ '/') (y : Text) : Item.next (c :: y) = .ok (some (.bare c, y)) := by
  have hne : s ≠ ['\\'] := by
    rintro rfl
    cases h
  cases taken_of_next h hne with
  | bare hback hquote hslash =>
    exact (Taken.bare hback hquote fun hc' => absurd hc' hc).next

/-- An item is read to where the next one may begin. -/
theorem Taken.run {item : Item} {rest : Text} {m n : Mode} (h : Taken item rest)
    (hm : Aligned m (item.text ++ rest)) (hrun : m.run (item.text ++ rest) = some n)
    (hn : n.rests = true) : ∃ k, m.run item.text = some k ∧ Aligned k rest := by
  obtain ⟨k, hk, hkn⟩ := run_append_eq_some hrun
  refine ⟨k, hk, ?_⟩
  obtain ⟨hm, hslash⟩ := hm
  cases h with
  | @bare c rest hback hquote hnext =>
    have hstep : m.step c = some k := by simpa [text] using hk
    have hne : m = .slash → c ≠ '*' := fun hms hc => hslash hms (by rw [hc]; rfl)
    obtain ⟨hkrest, hkslash⟩ := step_bare hstep hm hne hback hquote
    exact ⟨hkrest, fun hks => hnext (hkslash hks)⟩
  | escape c rest =>
    obtain ⟨inKeyword, hstep⟩ := step_backslash hm
    rw [text, run_cons, hstep] at hk
    cases hk
    cases inKeyword <;> simp [Aligned, rests]
  | @comment body hbody rest =>
    have hmrest : m.rests = true := by
      refine hm.resolve_right ?_
      rintro rfl
      cases hk
    have hrun' : m.run ('/' :: '*' :: body) = some .fresh := by
      rw [run_cons, step_slash hmrest]
      exact (closeComment_run hbody).1
    have hk' : k = .fresh := Option.some.inj (hk.symm.trans hrun')
    subst hk'
    simp [Aligned, rests]
  | @string q body hq hbody rest =>
    have hmrest : m.rests = true := by
      refine hm.resolve_right ?_
      rintro rfl
      rcases hq with rfl | rfl <;> cases hk
    have hq' := quote_ne_backslash hq
    -- the string closes on its line, and where lines do not matter it closes at the same place
    have hin : (Mode.string q).run (body ++ rest) = some n := by
      have hrun' : m.run (q :: (body ++ rest)) = some n := hrun
      rwa [run_cons, step_quote hq hmrest] at hrun'
    obtain ⟨b, u, hb, -⟩ := closeString_of_run hq' hn hin
    have heq := (closeString_multiline hb).symm.trans (closeString_append_right hq' hbody rest)
    cases heq
    have hrun' : m.run (q :: body) = some .fresh := by
      rw [run_cons, step_quote hq hmrest]
      exact closeString_run hq' hb
    have hk' : k = .fresh := Option.some.inj (hk.symm.trans hrun')
    subst hk'
    simp [Aligned, rests]

/-- An item is taken from a text that can be read, and read to where the next one may begin. -/
theorem next_run {s rest : Text} {item : Item} {m n : Mode}
    (h : Item.next s = .ok (some (item, rest))) (hm : Aligned m s) (hrun : m.run s = some n)
    (hn : n.rests = true) :
    Taken item rest ∧ ∃ k, m.run item.text = some k ∧ Aligned k rest ∧ k.run rest = some n := by
  have happ := next_append h
  -- a single backslash would be an item of its own, but it cannot be read to a place of rest
  have hne : s ≠ ['\\'] := by
    rintro rfl
    obtain ⟨inKeyword, hstep⟩ := step_backslash hm.1
    rw [run_cons, hstep] at hrun
    cases hrun
    cases hn
  have htaken := taken_of_next h hne
  rw [happ] at hm hrun
  obtain ⟨k, hk, hkr⟩ := htaken.run hm hrun hn
  rw [run_append_of_run hk] at hrun
  exact ⟨htaken, k, hk, hkr, hrun⟩

end Item

/-! ## Groups -/

section

variable {awaited : Char} {outer : List Char} {s rest : Text}

theorem closeGroup_shielded {t : Text} (h : Item.next s = .ok (some (.shielded t, rest))) :
    closeGroup awaited outer s = Text.prepend t (closeGroup awaited outer rest) := by
  rw [closeGroup]
  split <;> rename_i heq <;> rw [h] at heq <;> cases heq
  rfl

theorem closeGroup_bare {c : Char} (h : Item.next s = .ok (some (.bare c, rest))) :
    closeGroup awaited outer s =
      match closerOf? c with
      | some closer => Text.prepend [c] (closeGroup closer (awaited :: outer) rest)
      | none =>
        if c == ')' || c == ']' then
          if c == awaited then
            match outer with
            | [] => .ok ([c], rest)
            | next :: outer => Text.prepend [c] (closeGroup next outer rest)
          else .error (.mismatched c)
        else Text.prepend [c] (closeGroup awaited outer rest) := by
  rw [closeGroup]
  split <;> rename_i heq <;> rw [h] at heq <;> cases heq
  rfl

theorem closeGroup_ne_nil {group : Text} (h : closeGroup awaited outer s = .ok (group, rest)) :
    group ≠ [] := by
  fun_induction closeGroup awaited outer s generalizing group with
  | case1 | case2 | case7 => simp at h
  | case3 awaited outer s t r hs ih =>
    obtain ⟨u, hu, rfl⟩ := Text.prepend_eq_ok_iff.1 h
    exact List.append_ne_nil_of_right_ne_nil _ (ih hu)
  | case5 =>
    cases h
    simp
  | case4 _ _ _ _ _ _ _ _ ih | case6 _ _ _ _ _ _ _ _ _ _ ih | case8 _ _ _ _ _ _ _ _ ih =>
    obtain ⟨u, hu, rfl⟩ := Text.prepend_eq_ok_iff.1 h
    exact List.append_ne_nil_of_right_ne_nil _ (ih hu)

/-- An item of a group is taken again in front of the rest of the group, since that has a first
character and begins as it did before. -/
theorem next_inGroup {r u : Text} {item : Item} (h : Item.next s = .ok (some (item, r)))
    (hu : closeGroup awaited outer r = .ok (u, rest)) (y : Text) :
    Item.next (item.text ++ (u ++ y)) = .ok (some (item, u ++ y)) := by
  obtain ⟨c, v, rfl⟩ := List.exists_cons_of_ne_nil (closeGroup_ne_nil hu)
  have hr := closeGroup_append hu
  have hne : s ≠ ['\\'] := by
    rintro rfl
    cases h
    cases hr
  refine ((Item.taken_of_next h hne).congr ?_).next
  rw [hr]
  exact id

/-- A group ends where it is closed, whatever stands behind it. Item by item: an item of the group
is followed by the rest of the group, as it was before. -/
theorem closeGroup_again {group : Text} (h : closeGroup awaited outer s = .ok (group, rest))
    (y : Text) : closeGroup awaited outer (group ++ y) = .ok (group, y) := by
  fun_induction closeGroup awaited outer s generalizing group with
  | case1 | case2 | case7 => simp at h
  | case3 awaited outer s t r hs ih =>
    obtain ⟨u, hu, rfl⟩ := Text.prepend_eq_ok_iff.1 h
    have hagain : Item.next (t ++ (u ++ y)) = _ := next_inGroup hs hu y
    rw [List.append_assoc, closeGroup_shielded hagain, ih hu]
    rfl
  | case4 awaited outer s c r hs closer hc ih =>
    obtain ⟨u, hu, rfl⟩ := Text.prepend_eq_ok_iff.1 h
    have hagain : Item.next ([c] ++ (u ++ y)) = _ := next_inGroup hs hu y
    rw [List.append_assoc, closeGroup_bare hagain]
    simp only [hc, ih hu]
    rfl
  | case5 awaited s c r hs hc hb ha =>
    cases h
    -- the closing bracket is no slash, so anything may stand behind it
    have hne : c ≠ '/' := by
      rintro rfl
      cases hb
    rw [List.singleton_append, closeGroup_bare (Item.next_bare hs hne y)]
    simp only [hc, hb, ha, if_true]
  | case6 awaited s c r hs hc hb ha next outer ih =>
    obtain ⟨u, hu, rfl⟩ := Text.prepend_eq_ok_iff.1 h
    have hagain : Item.next ([c] ++ (u ++ y)) = _ := next_inGroup hs hu y
    rw [List.append_assoc, closeGroup_bare hagain]
    simp only [hc, hb, ha, if_true, ih hu]
    rfl
  | case8 awaited outer s c r hs hc hb ih =>
    obtain ⟨u, hu, rfl⟩ := Text.prepend_eq_ok_iff.1 h
    have hagain : Item.next ([c] ++ (u ++ y)) = _ := next_inGroup hs hu y
    rw [List.append_assoc, closeGroup_bare hagain]
    simp only [hc, hb, ih hu]
    rfl

end

/-- A group is read to where an item may begin. -/
theorem closeGroup_run {awaited : Char} {outer : List Char} {s group rest : Text} {m n : Mode}
    (h : closeGroup awaited outer s = .ok (group, rest)) (hm : Aligned m s)
    (hrun : m.run s = some n) (hn : n.rests = true) :
    ∃ k, m.run group = some k ∧ Aligned k rest ∧ k.run rest = some n := by
  fun_induction closeGroup awaited outer s generalizing group m with
  | case1 | case2 | case7 => simp at h
  | case5 awaited s c r hs hc hb ha =>
    cases h
    obtain ⟨-, k, hk, hkr, hkrun⟩ := Item.next_run hs hm hrun hn
    exact ⟨k, hk, hkr, hkrun⟩
  | case3 _ _ _ _ _ hs ih | case4 _ _ _ _ _ hs _ _ ih | case6 _ _ _ _ hs _ _ _ _ _ ih
  | case8 _ _ _ _ _ hs _ _ ih =>
    obtain ⟨u, hu, rfl⟩ := Text.prepend_eq_ok_iff.1 h
    obtain ⟨-, k, hk, hkr, hkrun⟩ := Item.next_run hs hm hrun hn
    obtain ⟨k', hk', hrest⟩ := ih hu hkr hkrun
    exact ⟨k', (run_append_of_run hk u).trans hk', hrest⟩

/-! ## Pieces -/

section

variable {s rest : Text}

theorem splitCommas_shielded {t : Text} (h : Item.next s = .ok (some (.shielded t, rest))) :
    splitCommas s = Text.prepend t (splitCommas rest) := by
  rw [splitCommas]
  split <;> rename_i heq <;> rw [h] at heq <;> cases heq
  rfl

theorem splitCommas_bare {c : Char} (h : Item.next s = .ok (some (.bare c, rest)))
    (hc : c ≠ ',') (hcloser : closerOf? c = none) :
    splitCommas s = Text.prepend [c] (splitCommas rest) := by
  rw [splitCommas]
  split <;> rename_i heq <;> rw [h] at heq <;> cases heq
  rw [if_neg (by simpa using hc)]
  split
  · rfl
  · rename_i heq
    rw [hcloser] at heq
    cases heq

theorem splitCommas_group {c closer : Char} {group rest' : Text}
    (h : Item.next s = .ok (some (.bare c, rest))) (hc : c ≠ ',')
    (hcloser : closerOf? c = some closer)
    (hgroup : closeGroup closer [] rest = .ok (group, rest')) :
    splitCommas s = Text.prepend (c :: group) (splitCommas rest') := by
  rw [splitCommas]
  split <;> rename_i heq <;> rw [h] at heq <;> cases heq
  rw [if_neg (by simpa using hc)]
  split <;> rename_i heq <;> rw [hcloser] at heq <;> cases heq
  split <;> rename_i heq <;> rw [hgroup] at heq <;> cases heq
  rfl

theorem splitCommas_comma (r : Text) :
    splitCommas (',' :: r) =
      (splitCommas r).map fun (piece, pieces) => ([], piece :: pieces) := by
  have h : Item.next (',' :: r) = .ok (some (.bare ',', r)) := rfl
  rw [splitCommas]
  split <;> rename_i heq <;> rw [h] at heq <;> cases heq
  rfl

theorem splitCommas_map_eq_ok_iff {piece : Text} {pieces : List Text}
    {x : Except ScanFault (Text × List Text)} :
    (x.map fun (piece, pieces) => (([] : Text), piece :: pieces)) = .ok (piece, pieces) ↔
      ∃ first others, x = .ok (first, others) ∧ piece = [] ∧ pieces = first :: others := by
  cases x with
  | error e => simp [Except.map]
  | ok p =>
    obtain ⟨first, others⟩ := p
    simp only [Except.map, Except.ok.injEq, Prod.mk.injEq]
    constructor
    · rintro ⟨rfl, rfl⟩
      exact ⟨first, others, ⟨rfl, rfl⟩, rfl, rfl⟩
    · rintro ⟨-, -, ⟨rfl, rfl⟩, rfl, rfl⟩
      exact ⟨rfl, rfl⟩

theorem splitCommas_first {piece : Text} {pieces : List Text}
    (h : splitCommas s = .ok (piece, pieces)) : ∃ tail, s = piece ++ tail := by
  rw [← splitCommas_append h]
  cases pieces with
  | nil => exact ⟨[], by simp [List.intercalate]⟩
  | cons q qs => exact ⟨',' :: [','].intercalate (q :: qs), by simp [List.intercalate]⟩

end

/-- A text that is one piece, and stays one when a comma and other pieces follow. -/
def Alone (s : Text) : Prop :=
  ∀ y, (∀ c ∈ y.head?, c = ',') → splitCommas (s ++ y) = Text.prepend s (splitCommas y)

theorem Alone.nil : Alone [] := by
  intro y _
  cases h : splitCommas y <;> simp [Text.prepend, h]

/-- An item in front of a piece is taken again when a comma follows the piece. -/
theorem Item.Taken.before {item : Item} {rest piece y : Text} {pieces : List Text}
    (h : Taken item rest) (hpiece : splitCommas rest = .ok (piece, pieces))
    (hy : ∀ c ∈ y.head?, c = ',') :
    Item.next (item.text ++ (piece ++ y)) = .ok (some (item, piece ++ y)) := by
  refine (h.congr fun hstar => ?_).next
  obtain ⟨tail, rfl⟩ := splitCommas_first hpiece
  cases piece with
  | nil =>
    -- the piece is empty, so a comma follows at once, and that is no asterisk
    have hcomma := hy '*' hstar
    cases hcomma
  | cons c piece => exact hstar

/-- Shielded text in front of a piece belongs to the piece. -/
theorem Alone.shielded {t r u : Text} {us : List Text} (h : Item.Taken (.shielded t) r)
    (hu : splitCommas r = .ok (u, us)) (halone : Alone u) : Alone (t ++ u) := by
  intro y hy
  have hnext : Item.next (t ++ (u ++ y)) = _ := h.before hu hy
  rw [List.append_assoc, splitCommas_shielded hnext, halone y hy, Text.prepend_prepend]

/-- A character other than a comma or an opening bracket, in front of a piece, belongs to it. -/
theorem Alone.bare {c : Char} {r u : Text} {us : List Text} (h : Item.Taken (.bare c) r)
    (hc : c ≠ ',') (hcloser : closerOf? c = none) (hu : splitCommas r = .ok (u, us))
    (halone : Alone u) : Alone ([c] ++ u) := by
  intro y hy
  have hnext : Item.next ([c] ++ (u ++ y)) = _ := h.before hu hy
  rw [List.append_assoc, splitCommas_bare hnext hc hcloser, halone y hy, Text.prepend_prepend]

/-- A group in front of a piece belongs to the piece, commas included. -/
theorem Alone.group {c closer : Char} {s r group r' u : Text}
    (h : Item.next s = .ok (some (.bare c, r))) (hc : c ≠ ',') (hcloser : closerOf? c = some closer)
    (hgroup : closeGroup closer [] r = .ok (group, r')) (halone : Alone u) :
    Alone (c :: group ++ u) := by
  intro y hy
  have hslash : c ≠ '/' := by
    rintro rfl
    cases hcloser
  have hagain := closeGroup_again hgroup (u ++ y)
  rw [List.append_assoc, List.cons_append,
    splitCommas_group (Item.next_bare h hslash _) hc hcloser hagain, halone y hy,
    Text.prepend_prepend]

/-- The pieces of a text that does not end in half an escape are one piece each, whatever piece
stands behind them. Item by item. -/
theorem splitCommas_alone {s piece : Text} {pieces : List Text}
    (h : splitCommas s = .ok (piece, pieces)) (hs : dangles s = false) :
    Alone piece ∧ ∀ q ∈ pieces, Alone q := by
  fun_induction splitCommas s generalizing piece pieces with
  | case1 | case6 => simp at h
  | case2 s hnext =>
    cases h
    exact ⟨.nil, by simp⟩
  | case3 s t r hnext ih =>
    obtain ⟨u, hu, rfl⟩ := Text.prepend_eq_ok_iff.1 h
    obtain ⟨htaken, hr⟩ := Item.next_dangles hnext hs
    obtain ⟨halone, hpieces⟩ := ih hu hr
    exact ⟨halone.shielded htaken hu, hpieces⟩
  | case4 s c r hnext hc ih =>
    obtain ⟨-, hr⟩ := Item.next_dangles hnext hs
    obtain ⟨first, others, hsplit, rfl, rfl⟩ := splitCommas_map_eq_ok_iff.1 h
    exact ⟨.nil, List.forall_mem_cons.2 (ih hsplit hr)⟩
  | case5 s c r hnext hc hcloser ih =>
    obtain ⟨u, hu, rfl⟩ := Text.prepend_eq_ok_iff.1 h
    obtain ⟨htaken, hr⟩ := Item.next_dangles hnext hs
    obtain ⟨halone, hpieces⟩ := ih hu hr
    exact ⟨halone.bare htaken (by simpa using hc) hcloser hu, hpieces⟩
  | case7 s c r hnext hc closer hcloser group r' hgroup ih =>
    obtain ⟨u, hu, rfl⟩ := Text.prepend_eq_ok_iff.1 h
    obtain ⟨-, hr⟩ := Item.next_dangles hnext hs
    rw [closeGroup_append hgroup, dangles_append (dangles_of_closeGroup hgroup)] at hr
    obtain ⟨halone, hpieces⟩ := ih hu hr
    exact ⟨halone.group hnext (by simpa using hc) hcloser hgroup, hpieces⟩

/-- The pieces of a head can be read as heads, the first from where the head begins and the others
inside a chunk. Item by item; the mode reached behind an item is where the rest of the head begins.
-/
theorem splitCommas_flat {m : Mode} {s piece : Text} {pieces : List Text}
    (h : splitCommas s = .ok (piece, pieces)) (hm : Aligned m s) (hs : Flat m s) :
    Flat m piece ∧ ∀ q ∈ pieces, Flat .word q := by
  obtain ⟨n, hrun, hn⟩ := hs
  fun_induction splitCommas s generalizing m piece pieces with
  | case1 | case6 => simp at h
  | case2 s hnext =>
    cases h
    have hnil := Item.next_eq_none_iff.1 hnext
    subst hnil
    exact ⟨⟨n, hrun, hn⟩, by simp⟩
  | case3 _ _ _ hnext ih | case5 _ _ _ hnext _ _ ih =>
    obtain ⟨u, hu, rfl⟩ := Text.prepend_eq_ok_iff.1 h
    obtain ⟨-, k, hk, hkr, hkrun⟩ := Item.next_run hnext hm hrun hn
    obtain ⟨hflat, hpieces⟩ := ih hu hkr hkrun
    exact ⟨hflat.prepend hk, hpieces⟩
  | case4 s c r hnext hc ih =>
    -- the comma ends the first piece, which is empty, and the next one begins inside a chunk
    rw [beq_iff_eq] at hc
    subst hc
    obtain ⟨-, k, hk, hkr, hkrun⟩ := Item.next_run hnext hm hrun hn
    have hmrest : m.rests = true := by
      refine hm.1.resolve_right ?_
      rintro rfl
      cases hk
    have hword : k = .word := by
      have hk' : m.run [','] = some k := hk
      rw [run_cons, step_comma hmrest] at hk'
      cases hk'
      rfl
    subst hword
    obtain ⟨first, others, hsplit, rfl, rfl⟩ := splitCommas_map_eq_ok_iff.1 h
    exact ⟨⟨m, rfl, hmrest⟩, List.forall_mem_cons.2 (ih hsplit hkr hkrun)⟩
  | case7 s c r hnext hc closer hcloser group r' hgroup ih =>
    obtain ⟨u, hu, rfl⟩ := Text.prepend_eq_ok_iff.1 h
    obtain ⟨-, k, hk, hkr, hkrun⟩ := Item.next_run hnext hm hrun hn
    obtain ⟨k', hk', hkr', hkrun'⟩ := closeGroup_run hgroup hkr hkrun hn
    obtain ⟨hflat, hpieces⟩ := ih hu hkr' hkrun'
    have hrun' : m.run (c :: group) = some k' := by
      have hcons : m.run ([c] ++ group) = some k' := (run_append_of_run hk group).trans hk'
      exact hcons
    exact ⟨hflat.prepend hrun', hpieces⟩

/-! ## Selectors -/

/-- What is one piece in front of others is one piece by itself. -/
theorem Alone.splitCommas_self {s : Text} (h : Alone s) : splitCommas s = .ok (s, []) := by
  have hself := h [] (by simp)
  rw [List.append_nil] at hself
  rw [hself]
  simp [splitCommas, Item.next, Text.prepend]

/-- Pieces joined by commas are cut into those pieces. -/
theorem splitCommas_of_alone {piece : Text} {pieces : List Text} (h : Alone piece)
    (hs : ∀ q ∈ pieces, Alone q) :
    splitCommas ([','].intercalate (piece :: pieces)) = .ok (piece, pieces) := by
  induction pieces generalizing piece with
  | nil =>
    rw [List.intercalate, List.intersperse_singleton, List.flatten_singleton]
    exact h.splitCommas_self
  | cons q qs ih =>
    obtain ⟨hq, hqs⟩ := List.forall_mem_cons.1 hs
    have hjoin : [','].intercalate (piece :: q :: qs) =
        piece ++ ',' :: [','].intercalate (q :: qs) := by
      simp [List.intercalate]
    rw [hjoin, h _ (by simp), splitCommas_comma, ih hq hqs]
    simp [Except.map, Text.prepend]

namespace Selector

/-- A selector that is read again from its own text, wherever it stands among others. -/
structure Sound (s : Selector) : Prop where
  parse : parse s.raw = .ok s
  flat : Flat .word s.raw
  alone : Alone s.raw

theorem parseEach_parse {texts : List Text} {selectors : List Selector}
    (h : parseEach texts = .ok selectors) : ∀ s ∈ selectors, Selector.parse s.raw = .ok s := by
  induction texts generalizing selectors with
  | nil =>
    cases h
    simp
  | cons text texts ih =>
    unfold parseEach at h
    split at h
    · cases h
    · rename_i selector hs
      split at h
      · cases h
      · rename_i rest hrest
        cases h
        refine List.forall_mem_cons.2 ⟨?_, ih hrest⟩
        rw [parse_raw hs, hs]

theorem parseEach_of_parse {selectors : List Selector}
    (h : ∀ s ∈ selectors, Selector.parse s.raw = .ok s) :
    parseEach (selectors.map raw) = .ok selectors := by
  induction selectors with
  | nil => rfl
  | cons s selectors ih =>
    obtain ⟨hs, hrest⟩ := List.forall_mem_cons.1 h
    simp only [List.map_cons, parseEach, hs, ih hrest]

theorem joined_cons_cons (first second : Selector) (others : List Selector) :
    joined (first :: second :: others) = first.raw ++ ',' :: joined (second :: others) := by
  simp [joined, List.intercalate]

theorem dangles_joined {selectors : List Selector}
    (h : ∀ s ∈ selectors, dangles s.raw = false) : dangles (joined selectors) = false := by
  induction selectors with
  | nil => rfl
  | cons first others ih =>
    obtain ⟨hfirst, hothers⟩ := List.forall_mem_cons.1 h
    cases others with
    | nil => simpa [joined, List.intercalate] using hfirst
    | cons second others =>
      rw [joined_cons_cons, dangles_append hfirst, dangles_cons (by decide)]
      exact ih hothers

/-- The selectors of a list are read from the pieces that its text is cut into, and these are one
piece each wherever they stand. -/
theorem pieces_of_parseList {text : Text} {selectors : List Selector}
    (h : parseList text = .ok selectors) :
    ∃ first others, selectors = first :: others ∧
      splitCommas text = .ok (first.raw, others.map raw) ∧
      ∀ s ∈ selectors, parse s.raw = .ok s ∧ Alone s.raw := by
  have hjoined := parseList_joined h
  unfold parseList at h
  split at h
  · cases h
  · rename_i piece pieces hsplit
    have hparse := parseEach_parse h
    have hdangles : dangles text = false := by
      rw [← hjoined]
      exact dangles_joined fun s hs => dangles_of_parse (hparse s hs)
    obtain ⟨hpiece, hpieces⟩ := splitCommas_alone hsplit hdangles
    obtain ⟨first, others, rfl, rfl, rfl⟩ := List.map_eq_cons_iff.1 (parseEach_raw h)
    have halone : ∀ s ∈ first :: others, Alone s.raw :=
      List.forall_mem_cons.2 ⟨hpiece, by simpa using hpieces⟩
    exact ⟨first, others, rfl, hsplit, fun s hs => ⟨hparse s hs, halone s hs⟩⟩

/-- Selectors that were read from a head are sound, and the first begins where the head begins. -/
theorem sound_of_parseList {head : Text} {selectors : List Selector} (hflat : Flat .fresh head)
    (h : parseList head = .ok selectors) :
    (∀ s ∈ selectors, s.Sound) ∧ selectors ≠ [] ∧
      ∀ first ∈ selectors.head?, Flat .fresh first.raw := by
  obtain ⟨first, others, rfl, hsplit, hall⟩ := pieces_of_parseList h
  have haligned : Aligned .fresh head := ⟨.inl rfl, by simp⟩
  obtain ⟨hfirst, hothers⟩ := splitCommas_flat hsplit haligned hflat
  -- inside a chunk everything is read that is read at the start of a head
  have hword : ∀ s ∈ first :: others, Flat .word s.raw :=
    List.forall_mem_cons.2 ⟨hfirst.of_le (.word (.inl rfl) (by decide)), by simpa using hothers⟩
  refine ⟨fun s hs => ?_, by simp, by simpa using hfirst⟩
  obtain ⟨hparse, halone⟩ := hall s hs
  exact ⟨hparse, hword s hs, halone⟩

/-- Selectors that are read from their texts and are one piece each, joined by commas, are read as
those selectors. -/
theorem parseList_of_alone {selectors : List Selector} (hne : selectors ≠ [])
    (h : ∀ s ∈ selectors, parse s.raw = .ok s ∧ Alone s.raw) :
    parseList (joined selectors) = .ok selectors := by
  obtain ⟨first, others, rfl⟩ := List.exists_cons_of_ne_nil hne
  obtain ⟨hfirst, hothers⟩ := List.forall_mem_cons.1 h
  have hsplit : splitCommas (joined (first :: others)) = .ok (first.raw, others.map raw) := by
    refine splitCommas_of_alone hfirst.2 ?_
    simpa using fun s hs => (hothers s hs).2
  have heach := parseEach_of_parse fun s hs => (h s hs).1
  simp only [parseList, hsplit]
  exact heach

theorem parseList_of_sound {selectors : List Selector} (hne : selectors ≠ [])
    (h : ∀ s ∈ selectors, s.Sound) : parseList (joined selectors) = .ok selectors :=
  parseList_of_alone hne fun s hs => ⟨(h s hs).parse, (h s hs).alone⟩

/-- The head that sound selectors make can be read as a head when its first one can. -/
theorem flat_joined {m : Mode} {first : Selector} {others : List Selector}
    (hfirst : Flat m first.raw) (hothers : ∀ s ∈ others, Flat .word s.raw) :
    Flat m (joined (first :: others)) := by
  induction others generalizing m first with
  | nil => simpa [joined, List.intercalate] using hfirst
  | cons s others ih =>
    obtain ⟨hs, hrest⟩ := List.forall_mem_cons.1 hothers
    obtain ⟨k, hk, hkrest⟩ := hfirst
    have hcomma : k.run [','] = some .word := by rw [run_cons, step_comma hkrest]; rfl
    rw [joined_cons_cons, ← List.singleton_append]
    exact .prepend hk (.prepend hcomma (ih hs hrest))

end Selector

end StylePrune
