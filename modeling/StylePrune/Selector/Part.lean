import StylePrune.Identifier
import StylePrune.Selector.Basic
import StylePrune.Selector.Bracket

/-!
# Reading a part of a selector

The first character decides the kind of a part: `.` a class, `#` an id, `[` an attribute, `:` a
pseudo-class or pseudo-element, `&` the nesting selector; anything else begins a type selector. A
name is always the longest identifier at its place, and a namespace is read whenever one is there
(`Part.read_append`: nothing of the text is lost).
-/

namespace StylePrune

def readName? (s : Text) : Option (Text × Text) :=
  match Identifier.read s with
  | ([], _) => none
  | (name, rest) => some (name, rest)

/-- Reads the name of a namespace: an identifier, `*` or nothing. -/
def readNamespaceName : Text → Text × Text
  | '*' :: rest => (['*'], rest)
  | s => Identifier.read s

/-- Reads a namespace with the bar behind it, which no `=` may follow. -/
def readNamespace? (s : Text) : Option (Text × Text) :=
  match readNamespaceName s with
  | (_, '|' :: '=' :: _) => none
  | (name, '|' :: rest) => some (name ++ ['|'], rest)
  | _ => none

/-- Reads what `readLocal?` reads, behind a namespace if there is one that such a name follows.
Gives the namespace with its bar, the name and the text behind it. -/
def readQualified? (readLocal? : Text → Option (Text × Text)) (s : Text) :
    Option (Text × Text × Text) :=
  match readNamespace? s with
  | some (space, rest) =>
    match readLocal? rest with
    | some (name, rest) => some (space, name, rest)
    | none => (readLocal? s).map fun (name, rest) => ([], name, rest)
  | none => (readLocal? s).map fun (name, rest) => ([], name, rest)

/-- Reads the name of a type selector: an identifier or `*`. -/
def readTypeName? : Text → Option (Text × Text)
  | '*' :: rest => some (['*'], rest)
  | s => readName? s

/-- Whether a text runs to a `]` at its very end, over strings, escapes and characters that are
neither quote nor bracket. -/
def endsAttribute (s : Text) : Bool :=
  match s with
  | [] => false
  | [']'] => true
  | '\\' :: _ :: rest => endsAttribute rest
  | c :: rest =>
    if c == '\x22' || c == '\x27' then
      match _h : closeString true c rest with
      | some (_, rest) => endsAttribute rest
      | none => false
    else if c == ']' || c == '\\' then false
    else endsAttribute rest
termination_by s.length
decreasing_by
  · simp only [List.length_cons]
    omega
  · have := closeString_length_le _h
    simp only [List.length_cons]
    omega
  · simp

/-- The name of an attribute selector, given the text behind its `[`, the final `]` included. -/
def attributeName? (group : Text) : Option Text :=
  match readQualified? readName? (group.dropWhile Text.isBlank) with
  | some (_, name, rest) => if endsAttribute rest then some name else none
  | none => none

/-- Why no part can be read at a place. -/
inductive PartFault where
  /-- No part begins with this character. -/
  | unexpected (c : Char)
  /-- Strings, comments or brackets do not close. -/
  | scan (fault : ScanFault)
deriving DecidableEq, Repr

namespace Part

/-- Reads a class or an id, whose mark has been read. -/
def readMarked (kind : PartKind) (mark : Char) (rest : Text) : Except PartFault (Part × Text) :=
  match readName? rest with
  | some (name, rest) => .ok (⟨kind, name, mark :: name⟩, rest)
  | none => .error (.unexpected mark)

/-- Reads an attribute selector, whose opening bracket has been read. -/
def readAttribute (rest : Text) : Except PartFault (Part × Text) :=
  match closeGroup ']' [] rest with
  | .error fault => .error (.scan fault)
  | .ok (group, rest) =>
    match attributeName? group with
    | some name => .ok (⟨.attribute, name, '[' :: group⟩, rest)
    | none => .error (.unexpected '[')

/-- Reads a pseudo-class or pseudo-element, whose colons have been read, with its argument if there
is one. -/
def readPseudo (kind : PartKind) (colons rest : Text) : Except PartFault (Part × Text) :=
  match readName? rest with
  | none => .error (.unexpected ':')
  | some (name, '(' :: rest) =>
    match closeGroup ')' [] rest with
    | .error fault => .error (.scan fault)
    | .ok (group, rest) => .ok (⟨kind, name, colons ++ name ++ '(' :: group⟩, rest)
  | some (name, rest) => .ok (⟨kind, name, colons ++ name⟩, rest)

/-- Reads a type selector that begins with the character `c`. -/
def readType (c : Char) (rest : Text) : Except PartFault (Part × Text) :=
  match readQualified? readTypeName? (c :: rest) with
  | some (space, name, rest) =>
    .ok (⟨if name = ['*'] then .universal else .tag, name, space ++ name⟩, rest)
  | none => .error (.unexpected c)

/-- Reads the part that begins with the character `c`. -/
def read (c : Char) (rest : Text) : Except PartFault (Part × Text) :=
  if c = '.' then readMarked .className c rest
  else if c = '#' then readMarked .idName c rest
  else if c = '[' then readAttribute rest
  else if c = ':' then
    match rest with
    | ':' :: rest => readPseudo .pseudoElement [':', ':'] rest
    | rest => readPseudo .pseudoClass [':'] rest
  else if c = '&' then .ok (⟨.universal, ['&'], ['&']⟩, rest)
  else readType c rest

end Part

theorem readName?_append {s name rest : Text} (h : readName? s = some (name, rest)) :
    s = name ++ rest := by
  have happ := Identifier.read_append s
  unfold readName? at h
  split at h
  · simp at h
  · rename_i heq
    simp only [Option.some.injEq, Prod.mk.injEq] at h
    obtain ⟨rfl, rfl⟩ := h
    rw [heq] at happ
    exact happ.symm

theorem readName?_ne_nil {s name rest : Text} (h : readName? s = some (name, rest)) :
    name ≠ [] := by
  unfold readName? at h
  split at h
  · simp at h
  · rename_i hne _
    simp only [Option.some.injEq, Prod.mk.injEq] at h
    obtain ⟨rfl, rfl⟩ := h
    exact hne

theorem readTypeName?_append {s name rest : Text} (h : readTypeName? s = some (name, rest)) :
    s = name ++ rest := by
  unfold readTypeName? at h
  split at h
  · simp only [Option.some.injEq, Prod.mk.injEq] at h
    obtain ⟨rfl, rfl⟩ := h
    rfl
  · exact readName?_append h

theorem readTypeName?_ne_nil {s name rest : Text} (h : readTypeName? s = some (name, rest)) :
    name ≠ [] := by
  unfold readTypeName? at h
  split at h
  · simp only [Option.some.injEq, Prod.mk.injEq] at h
    obtain ⟨rfl, -⟩ := h
    simp
  · exact readName?_ne_nil h

theorem readNamespaceName_append (s : Text) :
    (readNamespaceName s).1 ++ (readNamespaceName s).2 = s := by
  unfold readNamespaceName
  split
  · rfl
  · exact Identifier.read_append s

theorem readNamespace?_append {s space rest : Text} (h : readNamespace? s = some (space, rest)) :
    s = space ++ rest := by
  have happ := readNamespaceName_append s
  unfold readNamespace? at h
  split at h
  · simp at h
  · rename_i heq
    simp only [Option.some.injEq, Prod.mk.injEq] at h
    obtain ⟨rfl, rfl⟩ := h
    rw [heq] at happ
    rw [← happ, List.append_assoc]
    rfl
  · simp at h

theorem readQualified?_eq_some {readLocal? : Text → Option (Text × Text)}
    {s space name rest : Text} (h : readQualified? readLocal? s = some (space, name, rest)) :
    (∃ t, readNamespace? s = some (space, t) ∧ readLocal? t = some (name, rest)) ∨
      (space = [] ∧ readLocal? s = some (name, rest)) := by
  unfold readQualified? at h
  split at h
  · rename_i sp t hsp
    split at h
    · rename_i nm r hnm
      simp only [Option.some.injEq, Prod.mk.injEq] at h
      obtain ⟨rfl, rfl, rfl⟩ := h
      exact Or.inl ⟨t, hsp, hnm⟩
    · simp only [Option.map_eq_some_iff, Prod.mk.injEq, Prod.exists] at h
      obtain ⟨nm, r, hnm, rfl, rfl, rfl⟩ := h
      exact Or.inr ⟨rfl, hnm⟩
  · simp only [Option.map_eq_some_iff, Prod.mk.injEq, Prod.exists] at h
    obtain ⟨nm, r, hnm, rfl, rfl, rfl⟩ := h
    exact Or.inr ⟨rfl, hnm⟩

/-- A type selector, joined with the text behind it, is the text it was taken from, and its name is
not empty. -/
theorem readQualified?_type_append {s space name rest : Text}
    (h : readQualified? readTypeName? s = some (space, name, rest)) :
    s = space ++ name ++ rest ∧ name ≠ [] := by
  rcases readQualified?_eq_some h with ⟨t, hsp, hnm⟩ | ⟨rfl, hnm⟩
  · refine ⟨?_, readTypeName?_ne_nil hnm⟩
    rw [readNamespace?_append hsp, readTypeName?_append hnm, List.append_assoc]
  · exact ⟨readTypeName?_append hnm, readTypeName?_ne_nil hnm⟩

namespace Part

/-- A class or an id is its mark with a name behind it. -/
theorem exists_of_readMarked {kind : PartKind} {mark : Char} {s rest : Text} {p : Part}
    (h : readMarked kind mark s = .ok (p, rest)) :
    ∃ name, readName? s = some (name, rest) ∧ p = ⟨kind, name, mark :: name⟩ := by
  unfold readMarked at h
  split at h
  · rename_i name r hname
    simp only [Except.ok.injEq, Prod.mk.injEq] at h
    obtain ⟨rfl, rfl⟩ := h
    exact ⟨name, hname, rfl⟩
  · simp at h

theorem readMarked_append {kind : PartKind} {mark : Char} {s rest : Text} {p : Part}
    (h : readMarked kind mark s = .ok (p, rest)) : mark :: s = p.raw ++ rest := by
  obtain ⟨name, hname, rfl⟩ := exists_of_readMarked h
  rw [readName?_append hname]
  rfl

/-- An attribute selector is a closed group that names an attribute. -/
theorem exists_of_readAttribute {s rest : Text} {p : Part} (h : readAttribute s = .ok (p, rest)) :
    ∃ group name, closeGroup ']' [] s = .ok (group, rest) ∧ attributeName? group = some name ∧
      p = ⟨.attribute, name, '[' :: group⟩ := by
  unfold readAttribute at h
  split at h
  · simp at h
  · rename_i group r hgroup
    split at h
    · rename_i name hname
      simp only [Except.ok.injEq, Prod.mk.injEq] at h
      obtain ⟨rfl, rfl⟩ := h
      exact ⟨group, name, hgroup, hname, rfl⟩
    · simp at h

theorem readAttribute_append {s rest : Text} {p : Part} (h : readAttribute s = .ok (p, rest)) :
    '[' :: s = p.raw ++ rest := by
  obtain ⟨group, name, hgroup, -, rfl⟩ := exists_of_readAttribute h
  rw [closeGroup_append hgroup]
  rfl

/-- A pseudo-class or pseudo-element is its colons and its name, and its argument if it has one. -/
theorem exists_of_readPseudo {kind : PartKind} {colons s rest : Text} {p : Part}
    (h : readPseudo kind colons s = .ok (p, rest)) :
    ∃ name argument, readName? s = some (name, argument ++ rest) ∧
      p = ⟨kind, name, colons ++ name ++ argument⟩ ∧
      (argument = [] ∨
        ∃ t group, closeGroup ')' [] t = .ok (group, rest) ∧ argument = '(' :: group) := by
  unfold readPseudo at h
  split at h
  · simp at h
  · rename_i name t hname
    split at h
    · simp at h
    · rename_i group r hgroup
      simp only [Except.ok.injEq, Prod.mk.injEq] at h
      obtain ⟨rfl, rfl⟩ := h
      refine ⟨name, '(' :: group, ?_, rfl, .inr ⟨t, group, hgroup, rfl⟩⟩
      rw [hname, closeGroup_append hgroup]
      rfl
  · rename_i name r _ hname
    simp only [Except.ok.injEq, Prod.mk.injEq] at h
    obtain ⟨rfl, rfl⟩ := h
    exact ⟨name, [], hname, by rw [List.append_nil], .inl rfl⟩

theorem readPseudo_append {kind : PartKind} {colons s rest : Text} {p : Part}
    (h : readPseudo kind colons s = .ok (p, rest)) : colons ++ s = p.raw ++ rest := by
  obtain ⟨name, argument, hname, rfl, -⟩ := exists_of_readPseudo h
  rw [readName?_append hname, List.append_assoc, List.append_assoc]

/-- A type selector is a qualified name. -/
theorem exists_of_readType {c : Char} {s rest : Text} {p : Part}
    (h : readType c s = .ok (p, rest)) :
    ∃ space name, readQualified? readTypeName? (c :: s) = some (space, name, rest) ∧
      p = ⟨if name = ['*'] then .universal else .tag, name, space ++ name⟩ := by
  unfold readType at h
  split at h
  · rename_i space name r hq
    simp only [Except.ok.injEq, Prod.mk.injEq] at h
    obtain ⟨rfl, rfl⟩ := h
    exact ⟨space, name, hq, rfl⟩
  · simp at h

theorem readType_append {c : Char} {s rest : Text} {p : Part} (h : readType c s = .ok (p, rest)) :
    c :: s = p.raw ++ rest := by
  obtain ⟨space, name, hq, rfl⟩ := exists_of_readType h
  exact (readQualified?_type_append hq).1

/-- A part, joined with the text behind it, is the text it was taken from. -/
theorem read_append {c : Char} {s rest : Text} {p : Part} (h : read c s = .ok (p, rest)) :
    c :: s = p.raw ++ rest := by
  unfold read at h
  split at h
  · exact readMarked_append h
  · split at h
    · exact readMarked_append h
    · split at h
      · rename_i hc
        rw [hc]
        exact readAttribute_append h
      · split at h
        · rename_i hc
          rw [hc]
          split at h
          · exact readPseudo_append h
          · exact readPseudo_append h
        · split at h
          · rename_i hc
            simp only [Except.ok.injEq, Prod.mk.injEq] at h
            obtain ⟨rfl, rfl⟩ := h
            rw [hc]
            rfl
          · exact readType_append h

/-- A part that was read has text. -/
theorem read_raw_ne_nil {c : Char} {s rest : Text} {p : Part} (h : read c s = .ok (p, rest)) :
    p.raw ≠ [] := by
  have hmarked : ∀ {kind mark}, readMarked kind mark s = .ok (p, rest) → p.raw ≠ [] := by
    intro kind mark h
    obtain ⟨name, -, rfl⟩ := exists_of_readMarked h
    simp
  have hpseudo : ∀ {kind mark colons t}, readPseudo kind (mark :: colons) t = .ok (p, rest) →
      p.raw ≠ [] := by
    intro kind mark colons t h
    obtain ⟨name, argument, -, rfl, -⟩ := exists_of_readPseudo h
    simp
  unfold read at h
  split at h
  · exact hmarked h
  · split at h
    · exact hmarked h
    · split at h
      · obtain ⟨group, name, -, -, rfl⟩ := exists_of_readAttribute h
        simp
      · split at h
        · split at h
          · exact hpseudo h
          · exact hpseudo h
        · split at h
          · simp only [Except.ok.injEq, Prod.mk.injEq] at h
            obtain ⟨rfl, -⟩ := h
            simp
          · obtain ⟨space, name, hq, rfl⟩ := exists_of_readType h
            simp [(readQualified?_type_append hq).2]

theorem read_length_le {c : Char} {s rest : Text} {p : Part} (h : read c s = .ok (p, rest)) :
    rest.length ≤ s.length := by
  have hlen := congrArg List.length (read_append h)
  have hpos := List.length_pos_iff.2 (read_raw_ne_nil h)
  rw [List.length_append, List.length_cons] at hlen
  omega

end Part

end StylePrune
