import StylePrune.Delimited
import StylePrune.Text.Prepend
import StylePrune.Selector.Error

/-!
# Brackets and commas

Inside a selector, an escape, a string or a comment shields what it holds: brackets and commas in it
do not count. A text is therefore scanned in *items*, each a bare character or a shielded text.

`closeGroup` finds the end of a bracketed group and `splitCommas` cuts a text at the commas outside
all groups. Both keep every character (`closeGroup_append`, `splitCommas_append`).
-/

namespace StylePrune

/-- What a scan for brackets and commas meets next. -/
inductive Item where
  /-- A character that counts. -/
  | bare (c : Char)
  /-- An escape, a string or a comment. -/
  | shielded (text : Text)
deriving DecidableEq, Repr

namespace Item

def text : Item → Text
  | .bare c => [c]
  | .shielded t => t

/-- Takes the item at the start of a text; there is none at its end. -/
def next (s : Text) : Except ScanFault (Option (Item × Text)) :=
  match s with
  | [] => .ok none
  | '\\' :: c :: rest => .ok (some (.shielded ['\\', c], rest))
  | '/' :: '*' :: rest =>
    match closeComment rest with
    | some (body, rest) => .ok (some (.shielded ('/' :: '*' :: body), rest))
    | none => .error .openComment
  | c :: rest =>
    if c == '\\' then .ok (some (.shielded [c], rest))
    else if c == '\x22' || c == '\x27' then
      match closeString true c rest with
      | some (body, rest) => .ok (some (.shielded (c :: body), rest))
      | none => .error .openString
    else .ok (some (.bare c, rest))

theorem next_append {s rest : Text} {item : Item} (h : next s = .ok (some (item, rest))) :
    s = item.text ++ rest := by
  unfold next at h
  split at h
  · simp at h
  · simp only [Except.ok.injEq, Option.some.injEq, Prod.mk.injEq] at h
    obtain ⟨rfl, rfl⟩ := h
    rfl
  · split at h
    · rename_i body r heq
      simp only [Except.ok.injEq, Option.some.injEq, Prod.mk.injEq] at h
      obtain ⟨rfl, rfl⟩ := h
      rw [closeComment_append heq]
      rfl
    · simp at h
  · split at h
    · simp only [Except.ok.injEq, Option.some.injEq, Prod.mk.injEq] at h
      obtain ⟨rfl, rfl⟩ := h
      rfl
    · split at h
      · split at h
        · rename_i body r heq
          simp only [Except.ok.injEq, Option.some.injEq, Prod.mk.injEq] at h
          obtain ⟨rfl, rfl⟩ := h
          rw [closeString_append heq]
          rfl
        · simp at h
      · simp only [Except.ok.injEq, Option.some.injEq, Prod.mk.injEq] at h
        obtain ⟨rfl, rfl⟩ := h
        rfl

theorem next_length_lt {s rest : Text} {item : Item} (h : next s = .ok (some (item, rest))) :
    rest.length < s.length := by
  unfold next at h
  split at h
  · simp at h
  · simp only [Except.ok.injEq, Option.some.injEq, Prod.mk.injEq] at h
    obtain ⟨-, rfl⟩ := h
    simp only [List.length_cons]
    omega
  · split at h
    · rename_i body r heq
      simp only [Except.ok.injEq, Option.some.injEq, Prod.mk.injEq] at h
      obtain ⟨-, rfl⟩ := h
      have := closeComment_length_le heq
      simp only [List.length_cons]
      omega
    · simp at h
  · split at h
    · simp only [Except.ok.injEq, Option.some.injEq, Prod.mk.injEq] at h
      obtain ⟨-, rfl⟩ := h
      simp
    · split at h
      · split at h
        · rename_i body r heq
          simp only [Except.ok.injEq, Option.some.injEq, Prod.mk.injEq] at h
          obtain ⟨-, rfl⟩ := h
          have := closeString_length_le heq
          simp only [List.length_cons]
          omega
        · simp at h
      · simp only [Except.ok.injEq, Option.some.injEq, Prod.mk.injEq] at h
        obtain ⟨-, rfl⟩ := h
        simp

/-- There is an item unless the text is at its end. -/
theorem next_eq_none_iff {s : Text} : next s = .ok none ↔ s = [] := by
  constructor
  · intro h
    unfold next at h
    split at h
    · rfl
    · simp at h
    · split at h <;> simp at h
    · split at h
      · simp at h
      · split at h
        · split at h <;> simp at h
        · simp at h
  · rintro rfl
    rfl

end Item

/-- The bracket that closes the group an opening bracket begins. -/
def closerOf? : Char → Option Char
  | '(' => some ')'
  | '[' => some ']'
  | _ => none

/-- Finds the end of a group whose opening bracket has been read. `awaited` is the bracket that
closes the innermost open group, `outer` are those that close the groups around it, innermost first.
Gives the text up to the bracket that closes the outermost group, that bracket included, and the
text behind it. -/
def closeGroup (awaited : Char) (outer : List Char) (s : Text) : Except ScanFault (Text × Text) :=
  match _h : Item.next s with
  | .error fault => .error fault
  | .ok none => .error .unbalanced
  | .ok (some (.shielded t, rest)) => Text.prepend t (closeGroup awaited outer rest)
  | .ok (some (.bare c, rest)) =>
    match closerOf? c with
    | some closer => Text.prepend [c] (closeGroup closer (awaited :: outer) rest)
    | none =>
      if c == ')' || c == ']' then
        if c == awaited then
          match outer with
          | [] => .ok ([c], rest)
          | next :: outer => Text.prepend [c] (closeGroup next outer rest)
        else .error (.mismatched c)
      else Text.prepend [c] (closeGroup awaited outer rest)
termination_by s.length
decreasing_by all_goals exact Item.next_length_lt _h

/-- A group, joined with the text behind it, is the text it was taken from. -/
theorem closeGroup_append {awaited : Char} {outer : List Char} {s group rest : Text}
    (h : closeGroup awaited outer s = .ok (group, rest)) : s = group ++ rest := by
  fun_induction closeGroup awaited outer s generalizing group with
  | case1 | case2 | case7 => simp at h
  | case3 awaited outer s t r hs ih =>
    obtain ⟨u, hu, rfl⟩ := Text.prepend_eq_ok_iff.1 h
    rw [Item.next_append hs, ih hu, List.append_assoc]
    rfl
  | case4 awaited outer s c r hs closer hc ih =>
    obtain ⟨u, hu, rfl⟩ := Text.prepend_eq_ok_iff.1 h
    rw [Item.next_append hs, ih hu, List.append_assoc]
    rfl
  | case5 awaited s c r hs hc hb ha =>
    simp only [Except.ok.injEq, Prod.mk.injEq] at h
    obtain ⟨rfl, rfl⟩ := h
    exact Item.next_append hs
  | case6 awaited s c r hs hc hb ha next outer ih =>
    obtain ⟨u, hu, rfl⟩ := Text.prepend_eq_ok_iff.1 h
    rw [Item.next_append hs, ih hu, List.append_assoc]
    rfl
  | case8 awaited outer s c r hs hc hb ih =>
    obtain ⟨u, hu, rfl⟩ := Text.prepend_eq_ok_iff.1 h
    rw [Item.next_append hs, ih hu, List.append_assoc]
    rfl

theorem closeGroup_length_le {awaited : Char} {outer : List Char} {s group rest : Text}
    (h : closeGroup awaited outer s = .ok (group, rest)) : rest.length ≤ s.length := by
  rw [closeGroup_append h, List.length_append]
  omega

/-- Cuts a text at the commas outside all groups. The first piece is given apart, since there is
always one. -/
def splitCommas (s : Text) : Except ScanFault (Text × List Text) :=
  match _h : Item.next s with
  | .error fault => .error fault
  | .ok none => .ok ([], [])
  | .ok (some (.shielded t, rest)) => Text.prepend t (splitCommas rest)
  | .ok (some (.bare c, rest)) =>
    if c == ',' then (splitCommas rest).map fun (piece, pieces) => ([], piece :: pieces)
    else
      match closerOf? c with
      | none => Text.prepend [c] (splitCommas rest)
      | some closer =>
        match _hg : closeGroup closer [] rest with
        | .error fault => .error fault
        | .ok (group, rest) => Text.prepend (c :: group) (splitCommas rest)
termination_by s.length
decreasing_by
  all_goals
    first
      | exact Item.next_length_lt _h
      | exact Nat.lt_of_le_of_lt (closeGroup_length_le _hg) (Item.next_length_lt _h)

/-- Text put in front of the first of several pieces stands in front of the joined text. -/
theorem intercalate_append_cons (sep t piece : Text) (pieces : List Text) :
    sep.intercalate ((t ++ piece) :: pieces) = t ++ sep.intercalate (piece :: pieces) := by
  cases pieces <;> simp [List.intercalate]

/-- The pieces of a text, joined by commas, are the text. -/
theorem splitCommas_append {s piece : Text} {pieces : List Text}
    (h : splitCommas s = .ok (piece, pieces)) : [','].intercalate (piece :: pieces) = s := by
  fun_induction splitCommas s generalizing piece pieces with
  | case1 | case6 => simp at h
  | case2 s hs =>
    simp only [Except.ok.injEq, Prod.mk.injEq] at h
    obtain ⟨rfl, rfl⟩ := h
    rw [Item.next_eq_none_iff.1 hs]
    rfl
  | case3 s t r hs ih =>
    obtain ⟨u, hu, rfl⟩ := Text.prepend_eq_ok_iff.1 h
    rw [intercalate_append_cons, ih hu, Item.next_append hs]
    rfl
  | case4 s c r hs hc ih =>
    cases hr : splitCommas r with
    | error e => simp [hr, Except.map] at h
    | ok p =>
      obtain ⟨first, others⟩ := p
      simp only [hr, Except.map, Except.ok.injEq, Prod.mk.injEq] at h
      obtain ⟨rfl, rfl⟩ := h
      have hcomma : c = ',' := beq_iff_eq.1 hc
      rw [Item.next_append hs, ← ih hr, hcomma]
      simp [List.intercalate, Item.text]
  | case5 s c r hs hc hn ih =>
    obtain ⟨u, hu, rfl⟩ := Text.prepend_eq_ok_iff.1 h
    rw [intercalate_append_cons, ih hu, Item.next_append hs]
    rfl
  | case7 s c r hs hc closer hn group r' hg ih =>
    obtain ⟨u, hu, rfl⟩ := Text.prepend_eq_ok_iff.1 h
    rw [intercalate_append_cons, ih hu, Item.next_append hs, closeGroup_append hg]
    rfl

end StylePrune
