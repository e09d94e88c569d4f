import StylePrune.Proofs.NormalForm
import StylePrune.Proofs.Terminals

/-!
# The grammar of groups

A group runs from an opening bracket to the bracket that closes it, and what stands between the two
is a run of items: groups, escapes, strings, comments, and characters that are none of these. The
scan for the end of a group does not follow this grammar. It keeps a stack of the brackets that it
waits for, and jumps over what an escape, a string or a comment holds. Here the two are compared.

* **`Grouping.Derives`** — the grammar; `Grouping.derives_items_iff`: its runs of items are the
  balanced texts.
* **`Balanced.closeGroup`** — the scan passes over a balanced text whatever groups are open, and
  leaves them open.
* **`closeGroup_exact`** — the scan finds the one place where a group of the grammar ends, and fails
  if there is none.
-/

namespace StylePrune

/-! ## The grammar -/

namespace Grouping

/-- What the grammar derives texts from: a group, or a run of the items between its brackets. -/
inductive Nonterminal where
  | group
  | items

/-- The texts that a group and a run of items derive. A comment ends with the first `*/` in it, and
a slash is an item of its own only where it opens no comment. -/
inductive Derives : Nonterminal → Text → Prop where
  | round {inner : Text} (h : Derives .items inner) : Derives .group ('(' :: inner ++ [')'])
  | square {inner : Text} (h : Derives .items inner) : Derives .group ('[' :: inner ++ [']'])
  | nil : Derives .items []
  | group {g s : Text} (hg : Derives .group g) (hs : Derives .items s) : Derives .items (g ++ s)
  | escape (c : Char) {s : Text} (hs : Derives .items s) : Derives .items ('\\' :: c :: s)
  | string {q : Char} {body s : Text} (hq : q = '\x22' ∨ q = '\x27')
      (hbody : Escaped (staysOpen true q) body) (hs : Derives .items s) :
      Derives .items (q :: body ++ q :: s)
  | comment {body s : Text} (hbody : ¬ ['*', '/'] <:+: body) (hs : Derives .items s) :
      Derives .items ('/' :: '*' :: body ++ '*' :: '/' :: s)
  | other {c : Char} {s : Text} (hc : c ∉ ['(', ')', '[', ']', '\x22', '\x27', '\\'])
      (hcomment : c = '/' → s.head? ≠ some '*') (hs : Derives .items s) : Derives .items (c :: s)

variable {s t : Text}

/-- A group is a run of items between two brackets of one kind. -/
theorem derives_group_iff :
    Derives .group t ↔ ∃ opening closing inner, closerOf? opening = some closing ∧
      t = opening :: inner ++ [closing] ∧ Derives .items inner := by
  constructor
  · intro h
    cases h with
    | round h => exact ⟨_, _, _, rfl, rfl, h⟩
    | square h => exact ⟨_, _, _, rfl, rfl, h⟩
  · rintro ⟨opening, closing, inner, hclosing, rfl, h⟩
    unfold closerOf? at hclosing
    split at hclosing <;> cases hclosing
    · exact .round h
    · exact .square h

theorem Derives.of_balanced (h : Balanced s) : Derives .items s := by
  induction h with
  | nil => exact .nil
  | @bare c s hbracket hshield hcomment _ ih =>
    refine .other ?_ hcomment ih
    simp_all
  | escape c _ ih => exact .escape c ih
  | @string q body s hq hbody _ ih =>
    obtain ⟨b, rfl, -, hb⟩ := (closeString_iff (Item.quote_ne_backslash hq)).1 hbody
    simpa using Derives.string hq hb ih
  | @comment body s hbody _ ih =>
    obtain ⟨b, rfl, -, hb⟩ := closeComment_eq_some_iff.1 hbody
    have hfirst : ¬ ['*', '/'] <:+: b := fun hin => hb (hin.trans (List.infix_append' [] b _))
    simpa using Derives.comment hfirst ih
  | @group opening closing inner s hclosing _ _ ihinner ih =>
    have hgroup := derives_group_iff.2 ⟨opening, closing, inner, hclosing, rfl, ihinner⟩
    simpa using Derives.group hgroup ih

/-- A run of items is balanced, and so is a balanced text with a group in front of it. -/
theorem Derives.balanced {n : Nonterminal} (h : Derives n t) :
    match n with
    | .items => Balanced t
    | .group => ∀ s, Balanced s → Balanced (t ++ s) := by
  induction h with
  | @round inner _ ih | @square inner _ ih =>
    intro s hs
    simpa using Balanced.group rfl ih hs
  | nil => exact .nil
  | @group g s _ _ ihgroup ih => exact ihgroup s ih
  | escape c _ ih => exact .escape c ih
  | @string q body s hq hbody _ ih =>
    have hclose := (closeString_iff (Item.quote_ne_backslash hq)).2
      ⟨body, rfl, (List.append_nil _).symm, hbody⟩
    simpa using Balanced.string hq hclose ih
  | @comment body s hbody _ ih =>
    simpa using Balanced.comment (closeComment_body hbody) ih
  | @other c s hc hcomment _ ih =>
    refine .bare ?_ ?_ hcomment ih <;> simp_all

/-- The runs of items are the balanced texts. -/
theorem derives_items_iff : Derives .items s ↔ Balanced s :=
  ⟨Derives.balanced, .of_balanced⟩

end Grouping

/-! ## The scan -/

section

variable {awaited opening closing : Char} {outer : List Char}

theorem brackets_of_closerOf? (h : closerOf? opening = some closing) :
    opening = '(' ∧ closing = ')' ∨ opening = '[' ∧ closing = ']' := by
  unfold closerOf? at h
  split at h <;> cases h
  · exact .inl ⟨rfl, rfl⟩
  · exact .inr ⟨rfl, rfl⟩

/-- A bracket opens a group inside the one that is open. -/
theorem closeGroup_opening (h : closerOf? opening = some closing) (r : Text) :
    closeGroup awaited outer (opening :: r) =
      Text.prepend [opening] (closeGroup closing (awaited :: outer) r) := by
  have hnext : Item.next (opening :: r) = .ok (some (.bare opening, r)) := by
    rcases brackets_of_closerOf? h with ⟨rfl, -⟩ | ⟨rfl, -⟩ <;> rfl
  rw [closeGroup_bare hnext, h]

/-- The bracket that is awaited closes the innermost group. -/
theorem closeGroup_closing (h : closerOf? opening = some closing) (r : Text) :
    closeGroup closing outer (closing :: r) =
      match outer with
      | [] => .ok ([closing], r)
      | next :: outer => Text.prepend [closing] (closeGroup next outer r) := by
  have hnext : Item.next (closing :: r) = .ok (some (.bare closing, r)) := by
    rcases brackets_of_closerOf? h with ⟨-, rfl⟩ | ⟨-, rfl⟩ <;> rfl
  rw [closeGroup_bare hnext]
  rcases brackets_of_closerOf? h with ⟨-, rfl⟩ | ⟨-, rfl⟩ <;> rfl

/-- A shielded text leaves the open groups as they are. -/
theorem closeGroup_taken {t r : Text} (h : Item.Taken (.shielded t) r) :
    closeGroup awaited outer (t ++ r) = Text.prepend t (closeGroup awaited outer r) :=
  closeGroup_shielded h.next

/-- A balanced text leaves the open groups as they are. Only an asterisk behind it could make a
slash at its end the beginning of a comment. -/
theorem Balanced.closeGroup {u : Text} (hu : Balanced u) {rest : Text}
    (hrest : rest.head? ≠ some '*') :
    StylePrune.closeGroup awaited outer (u ++ rest) =
      Text.prepend u (StylePrune.closeGroup awaited outer rest) := by
  induction hu generalizing awaited outer rest with
  | nil => rw [List.nil_append, Text.prepend_nil]
  | @bare c s hbracket hshield hcomment _ ih =>
    have hstar : c = '/' → (s ++ rest).head? ≠ some '*' := by
      intro hc
      cases s with
      | nil => exact hrest
      | cons d s => exact hcomment hc
    have hnext : Item.next (c :: (s ++ rest)) = .ok (some (.bare c, s ++ rest)) :=
      (Item.Taken.bare (by simp_all) (by simp_all) hstar).next
    have hopening : closerOf? c = none := by
      unfold closerOf?
      split <;> simp_all
    have hclosing : ¬ (c == ')' || c == ']') = true := by simp_all
    rw [List.cons_append, closeGroup_bare hnext, hopening]
    simp only [if_neg hclosing, ih hrest, Text.prepend_prepend, List.singleton_append]
  | @escape c s _ ih =>
    show StylePrune.closeGroup awaited outer (['\\', c] ++ (s ++ rest)) = _
    rw [closeGroup_taken (.escape c _), ih hrest, Text.prepend_prepend]
    rfl
  | string hq hbody _ ih =>
    rw [List.append_assoc, closeGroup_taken (.string hq hbody _), ih hrest, Text.prepend_prepend]
  | comment hbody _ ih =>
    rw [List.append_assoc, closeGroup_taken (.comment hbody _), ih hrest, Text.prepend_prepend]
  | @group opening closing inner s hclosing _ _ ihinner ih =>
    have hhead : (closing :: (s ++ rest)).head? ≠ some '*' := by
      rcases brackets_of_closerOf? hclosing with ⟨-, rfl⟩ | ⟨-, rfl⟩ <;> simp
    -- the inner group is closed before the text behind it is scanned
    rw [List.append_assoc, List.cons_append, List.cons_append, closeGroup_opening hclosing,
      ihinner hhead, closeGroup_closing hclosing]
    simp only [ih hrest, Text.prepend_prepend, List.cons_append, List.nil_append]

/-- A group of the grammar is what the scan cuts off behind its opening bracket. -/
theorem closeGroup_eq_ok_iff {s group rest : Text} (h : closerOf? opening = some closing) :
    closeGroup closing [] s = .ok (group, rest) ↔
      s = group ++ rest ∧ Grouping.Derives .group (opening :: group) := by
  constructor
  · intro hscan
    obtain ⟨inner, rfl, hinner⟩ := balanced_of_closeGroup hscan
    exact ⟨closeGroup_append hscan,
      Grouping.derives_group_iff.2 ⟨opening, closing, inner, h, rfl, .of_balanced hinner⟩⟩
  · rintro ⟨rfl, hgroup⟩
    obtain ⟨opening', closing', inner, h', heq, hinner⟩ := Grouping.derives_group_iff.1 hgroup
    obtain ⟨rfl, htail⟩ := List.cons.inj heq
    obtain rfl : group = inner ++ [closing'] := htail
    obtain rfl : closing' = closing := Option.some.inj (h'.symm.trans h)
    have hhead : (closing' :: rest).head? ≠ some '*' := by
      rcases brackets_of_closerOf? h with ⟨-, rfl⟩ | ⟨-, rfl⟩ <;> simp
    rw [List.append_assoc, List.singleton_append,
      (Grouping.derives_items_iff.1 hinner).closeGroup hhead, closeGroup_closing h]
    rfl

end

/-- A group of the grammar stands between two places of a text. -/
def GroupBetween (text : Text) (start stop : Nat) : Prop :=
  stop ≤ text.length ∧ Grouping.Derives .group (text.extract start stop)

/-- The groups that begin at a bracket are beginnings of the text from there on. -/
theorem groupBetween_iff {text s : Text} {pos stop : Nat} {opening : Char}
    (hdrop : text.drop pos = opening :: s) :
    GroupBetween text pos stop ↔ ∃ group, s = group ++ text.drop stop ∧
      stop = pos + 1 + group.length ∧ Grouping.Derives .group (opening :: group) := by
  have hs : text.drop (pos + 1) = s := by
    rw [← List.drop_drop, hdrop, List.drop_one, List.tail_cons]
  constructor
  · rintro ⟨hle, hgroup⟩
    rw [List.extract_eq_take_drop, hdrop] at hgroup
    obtain ⟨k, hk⟩ : ∃ k, stop - pos = k + 1 := by
      refine Nat.exists_eq_succ_of_ne_zero fun hzero => ?_
      rw [hzero] at hgroup
      cases hgroup
    obtain rfl : stop = pos + 1 + k := by omega
    rw [hk, List.take_succ_cons] at hgroup
    refine ⟨s.take k, ?_, ?_, hgroup⟩
    · rw [← List.drop_drop, hs, List.take_append_drop]
    · rw [List.length_take, ← hs, List.length_drop]
      omega
  · rintro ⟨group, happ, rfl, hgroup⟩
    have hlength := congrArg List.length hdrop
    rw [happ] at hlength
    simp only [List.length_drop, List.length_cons, List.length_append] at hlength
    have hextract : text.extract pos (pos + 1 + group.length) = opening :: group := by
      rw [List.extract_eq_take_drop, hdrop, happ,
        show pos + 1 + group.length - pos = group.length + 1 by omega, List.take_succ_cons,
        List.take_left]
    exact ⟨by omega, hextract ▸ hgroup⟩

/-- From an opening bracket on, the scan gives the text up to a place and what stands behind it
exactly when a group of the grammar ends at that place. There is one such place at most, and without
one the scan fails. -/
theorem closeGroup_exact {text : Text} {pos : Nat} {opening closing : Char}
    (hpos : text[pos]? = some opening) (hclosing : closerOf? opening = some closing) :
    let scan := closeGroup closing [] (text.drop (pos + 1))
    (∀ stop, (∃ group, scan = .ok (group, text.drop stop) ∧ stop = pos + 1 + group.length) ↔
        GroupBetween text pos stop) ∧
      (∀ stop stop', GroupBetween text pos stop → GroupBetween text pos stop' → stop = stop') ∧
      ((∀ stop, ¬ GroupBetween text pos stop) → ∃ fault, scan = .error fault) := by
  intro scan
  obtain ⟨hlt, hget⟩ := List.getElem?_eq_some_iff.1 hpos
  have hdrop : text.drop pos = opening :: text.drop (pos + 1) := by
    rw [List.drop_eq_getElem_cons hlt, hget]
  have hends : ∀ stop, (∃ group, scan = .ok (group, text.drop stop) ∧
      stop = pos + 1 + group.length) ↔ GroupBetween text pos stop := by
    intro stop
    rw [groupBetween_iff hdrop]
    refine exists_congr fun group => ?_
    rw [closeGroup_eq_ok_iff hclosing, and_assoc, and_comm (a := stop = _)]
  refine ⟨hends, fun stop stop' h h' => ?_, fun hnone => ?_⟩
  · obtain ⟨group, hscan, rfl⟩ := (hends stop).2 h
    obtain ⟨group', hscan', rfl⟩ := (hends stop').2 h'
    cases hscan.symm.trans hscan'
    rfl
  · cases hscan : scan with
    | error fault => exact ⟨fault, rfl⟩
    | ok found =>
      obtain ⟨group, rest⟩ := found
      obtain ⟨happ, -⟩ := (closeGroup_eq_ok_iff hclosing).1 hscan
      refine absurd ((hends _).1 ⟨group, ?_, rfl⟩) (hnone _)
      rw [hscan, ← List.drop_drop, happ, List.drop_left]

/-- The group at the second character ends at the bracket behind the comment. The brackets in the
string, in the escapes and in the comment do not count, and the last one closes nothing. -/
theorem closeGroup_exact_shielded :
    let text := "a([\")\"]\\)/*]*/)b)".toList
    text[1]? = some '(' ∧ closerOf? '(' = some ')' ∧
      ∀ stop, GroupBetween text 1 stop ↔ stop = 15 := by
  intro text
  have hpos : text[1]? = some '(' := rfl
  refine ⟨hpos, rfl, fun stop => ?_⟩
  obtain ⟨hends, honly, -⟩ := closeGroup_exact hpos rfl
  have hfound : GroupBetween text 1 15 :=
    (hends 15).1 ⟨"[\")\"]\\)/*]*/)".toList, by decide +kernel, rfl⟩
  exact ⟨fun h => honly stop 15 h hfound, fun h => h ▸ hfound⟩

end StylePrune
