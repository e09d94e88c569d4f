import StylePrune.Proofs.AttributeComments

/-!
# Identifiers that stop early

An identifier is taken as far as it goes. Other texts at the same place are runs of atoms too:
shorter ones, and such as break a code point off before its last digit or its blank. Here is what
such a run leaves of the identifier.

* **`Identifier.IsAtomRun.remains`**: it leaves the last atoms, behind digits and a blank of the one
  that was broken off.
* **`Identifier.isLongest_iff`**: no run of atoms is longer than the one that is read.
-/

namespace StylePrune.Identifier

/-- An atom that may stand in an identifier. Nothing is said of what stands behind it, so a code
point may have fewer digits than there are. -/
structure Atom.Legal (a : Atom) : Prop where
  formed : a.Formed
  six : ∀ digits terminator, a = .code digits terminator → digits.length ≤ 6

/-- One atom or more, of whatever length. -/
def IsAtomRun (name : Text) : Prop :=
  ∃ as : List Atom, as ≠ [] ∧ (∀ a ∈ as, a.Legal) ∧ name = as.flatMap Atom.text

/-- The longest of the runs of atoms that a text begins with. -/
def IsLongest (s name : Text) : Prop :=
  IsAtomRun name ∧ name <+: s ∧
    ∀ other, IsAtomRun other → other <+: s → other.length ≤ name.length

/-- What an identifier that would reach up to `rest` leaves of itself when it stops early: its last
atoms, behind digits and the blank of an atom that was broken off. -/
inductive Remains (rest : Text) : Text → Prop where
  | atoms {s : Text} {as : List Atom} (h : atoms s = (as, rest)) : Remains rest s
  | digit {c : Char} {s : Text} (hc : isHexDigit c = true) (h : Remains rest s) :
      Remains rest (c :: s)
  | blank {c : Char} {s : Text} (hc : Text.isBlank c = true) (h : Remains rest s) :
      Remains rest (c :: s)

variable {s t rest name : Text} {a : Atom}

/-! ## Single atoms -/

theorem Atom.legal_of_read? (h : read? s = some (a, rest)) : a.Legal where
  formed := formed_of_read? h
  six := by
    rintro digits terminator rfl
    exact (read?_eq_code h).2.1

/-- No blank is a character of a name or a digit. -/
theorem free_of_isBlank {c : Char} (h : Text.isBlank c = true) :
    isNameChar c = false ∧ isHexDigit c = false := by
  simp only [Text.isBlank, Bool.or_eq_true, beq_iff_eq] at h
  rcases h with (((rfl | rfl) | rfl) | rfl) | rfl <;> exact ⟨rfl, rfl⟩

/-- An atom begins with a name character or with a backslash. -/
theorem Atom.Formed.text_eq_cons (h : a.Formed) :
    ∃ c t, a.text = c :: t ∧ (c = '\\' ∨ a = .plain c ∧ isNameChar c = true) := by
  cases h with
  | plain hname => exact ⟨_, [], rfl, .inr ⟨rfl, hname⟩⟩
  | code => exact ⟨'\\', _, rfl, .inl rfl⟩
  | escaped => exact ⟨'\\', _, rfl, .inl rfl⟩

/-! ## What is left -/

/-- Behind its first atom, the other atoms of an identifier are left. -/
theorem remains_of_read? {b : Atom} {r : Text} {as : List Atom}
    (h : Identifier.atoms s = (as, rest)) (hread : Atom.read? s = some (b, r)) :
    Remains rest r := by
  rw [Selector.atoms_some hread] at h
  exact .atoms (Prod.ext rfl (Prod.mk.inj h).2)

/-- Where an atom is broken off, digits of it and its blank remain. -/
theorem Remains.broken {digits : Text} {terminator : Option Char}
    (hdigits : ∀ c ∈ digits, isHexDigit c = true) (hblank : ∀ c ∈ terminator, Text.isBlank c = true)
    (h : Remains rest s) : Remains rest (digits ++ (terminator.toList ++ s)) := by
  induction digits with
  | nil =>
    cases terminator with
    | none => exact h
    | some b => exact .blank (hblank b rfl) h
  | cons d ds ih =>
    obtain ⟨hd, hds⟩ := List.forall_mem_cons.1 hdigits
    exact .digit hd (ih hds)

/-- The digits that are read begin with those of any code point at that place. -/
theorem Atom.exists_of_read?_code {digits : Text} {terminator : Option Char}
    (hlegal : Atom.Legal (.code digits terminator)) (s : Text) :
    ∃ ds terminator' r, Atom.read? ((Atom.code digits terminator).text ++ s) =
        some (.code (digits ++ ds) terminator', r) ∧
      terminator.toList ++ s = ds ++ (terminator'.toList ++ r) := by
  have hdigits : digits ≠ [] ∧ ∀ c ∈ digits, isHexDigit c = true := by
    cases hlegal.formed with
    | code hdigits => exact ⟨List.cons_ne_nil _ _, hdigits⟩
  obtain ⟨taken, terminator', r, hread⟩ : ∃ taken terminator' r,
      Atom.read? ((Atom.code digits terminator).text ++ s) =
        some (.code taken terminator', r) := by
    obtain ⟨d, ds, rfl⟩ := List.exists_cons_of_ne_nil hdigits.1
    have hd := hdigits.2 d List.mem_cons_self
    simp only [Atom.text, List.cons_append, Atom.read?, hd, if_true]
    exact ⟨_, _, _, rfl⟩
  have htext := Atom.read?_append hread
  simp only [Atom.text, List.cons_append, List.append_assoc, List.cons.injEq, true_and] at htext
  rcases List.append_eq_append_iff.1 htext with ⟨ds, rfl, hrest⟩ | ⟨ds, rfl, hrest⟩
  · exact ⟨ds, terminator', r, hread, hrest⟩
  · cases ds with
    | nil =>
      refine ⟨[], terminator', r, ?_, hrest.symm⟩
      rw [hread]
      simp
    | cons d ds =>
      -- then the reader would have taken one digit more
      have hsix := hlegal.six _ _ rfl
      rw [List.length_append, List.length_cons] at hsix
      obtain ⟨-, -, -, hlongest, -, -⟩ := Atom.read?_eq_code hread
      have hd := hlongest (by omega) d (by rw [hrest]; rfl)
      cases hd.symm.trans (hdigits.2 d (by simp))

/-- A code point that has fewer digits than there are, or does without the blank behind them. -/
theorem Remains.behind_code {digits : Text} {terminator : Option Char} {as : List Atom}
    (hlegal : Atom.Legal (.code digits terminator))
    (h : Identifier.atoms ((Atom.code digits terminator).text ++ s) = (as, rest)) :
    Remains rest s := by
  obtain ⟨ds, terminator', r, hread, htext⟩ := Atom.exists_of_read?_code hlegal s
  obtain ⟨-, -, hdigits, -, hblank', hbare⟩ := Atom.read?_eq_code hread
  have hds : ∀ c ∈ ds, isHexDigit c = true := fun c hc => hdigits c (List.mem_append_right _ hc)
  have hr := remains_of_read? h hread
  cases terminator with
  | none =>
    -- what the reader takes beyond the given digits is what remains
    obtain rfl : s = ds ++ (terminator'.toList ++ r) := htext
    exact hr.broken hds hblank'
  | some b =>
    have hb : Text.isBlank b = true := by
      cases hlegal.formed with
      | code _ hblank => exact hblank b rfl
    -- a blank ends the digits, so none was left out, and the reader takes it too
    cases ds with
    | cons d ds =>
      obtain ⟨rfl, -⟩ := List.cons.inj htext
      cases (hds b List.mem_cons_self).symm.trans (free_of_isBlank hb).2
    | nil =>
      cases terminator' with
      | none =>
        obtain rfl : b :: s = r := htext
        cases hb.symm.trans (hbare rfl b rfl)
      | some b' =>
        obtain ⟨-, rfl⟩ := List.cons.inj htext
        exact hr

/-- Behind an atom in what remains of an identifier, less of it remains. -/
theorem Remains.behind (h : Remains rest (a.text ++ s)) (ha : a.Legal) : Remains rest s := by
  generalize hx : a.text ++ s = x at h
  obtain ⟨c, t, htext, hc⟩ := ha.formed.text_eq_cons
  cases h with
  | atoms h =>
    subst hx
    cases ha.formed with
    | plain hname => exact remains_of_read? h (Selector.atom_plain hname s)
    | @escaped d hhex hline =>
      have hread : Atom.read? ((Atom.escaped d).text ++ s) = some (.escaped d, s) := by
        simp [Atom.text, Atom.read?, hhex, hline]
      exact remains_of_read? h hread
    | code => exact .behind_code ha h
  | digit hd h =>
    rw [htext, List.cons_append] at hx
    obtain ⟨rfl, rfl⟩ := List.cons.inj hx
    rcases hc with rfl | ⟨rfl, -⟩
    · cases hd
    · cases htext
      exact h
  | blank hb h =>
    rw [htext, List.cons_append] at hx
    obtain ⟨rfl, rfl⟩ := List.cons.inj hx
    rcases hc with rfl | ⟨-, hname⟩
    · cases hb
    · rw [(free_of_isBlank hb).1] at hname
      cases hname

/-- What an identifier leaves of itself behind the atoms of a run. -/
theorem Remains.behind_atoms {as : List Atom} (hlegal : ∀ a ∈ as, a.Legal)
    (h : Remains rest (as.flatMap Atom.text ++ s)) : Remains rest s := by
  induction as with
  | nil => exact h
  | cons a as ih =>
    obtain ⟨ha, has⟩ := List.forall_mem_cons.1 hlegal
    rw [List.flatMap_cons, List.append_assoc] at h
    exact ih has (h.behind ha)

theorem remains_read (s : Text) : Remains (read s).2 s := .atoms rfl

/-- What a run of atoms leaves of the identifier at its place. -/
theorem IsAtomRun.remains (h : IsAtomRun name) (t : Text) : Remains (read (name ++ t)).2 t := by
  obtain ⟨as, -, hlegal, rfl⟩ := h
  exact (remains_read _).behind_atoms hlegal

/-! ## What is left as a text -/

/-- Digits, blanks and name characters are neither quotes nor brackets nor backslashes. -/
theorem not_mem_brackets {c : Char}
    (h : isHexDigit c = true ∨ Text.isBlank c = true ∨ isNameChar c = true) :
    c ∉ [']', '\\', '\x22', '\x27'] := by
  intro hc
  revert h
  simp only [List.mem_cons, List.not_mem_nil, or_false] at hc
  rcases hc with rfl | rfl | rfl | rfl <;> decide

theorem Atom.Formed.unbracketed (h : a.Formed) : Unbracketed a.text := by
  cases h with
  | plain hname => exact .bare (not_mem_brackets (.inr (.inr hname))) .nil
  | @code d ds terminator hdigits hblank =>
    refine .escape d ?_
    have hbare : ∀ c ∈ ds ++ terminator.toList, c ∉ [']', '\\', '\x22', '\x27'] := by
      intro c hc
      rcases List.mem_append.1 hc with hc | hc
      · exact not_mem_brackets (.inl (hdigits c (List.mem_cons_of_mem d hc)))
      · exact not_mem_brackets (.inr (.inl (hblank c (Option.mem_toList.1 hc))))
    exact .of_bare hbare
  | escaped => exact .escape _ .nil

theorem unbracketed_atoms {as : List Atom} (h : ∀ a ∈ as, a.Formed) :
    Unbracketed (as.flatMap Atom.text) := by
  induction as with
  | nil => exact .nil
  | cons a as ih =>
    obtain ⟨ha, has⟩ := List.forall_mem_cons.1 h
    exact ha.unbracketed.append_iff.2 (ih has)

theorem legal_of_mem_atoms (s : Text) : ∀ a ∈ (atoms s).1, a.Legal := by
  fun_induction atoms s with
  | case1 => simp
  | case2 s a rest hread as rest' heq ih =>
    rw [heq] at ih
    exact List.forall_mem_cons.2 ⟨Atom.legal_of_read? hread, ih⟩

/-- What is left of an identifier does not begin with a bar. -/
theorem Remains.exists_append (h : Remains rest s) :
    ∃ u, s = u ++ rest ∧ Unbracketed u ∧ u.head? ≠ some '|' := by
  have hfirst : ∀ {c : Char} {u : Text}, c ≠ '|' → (c :: u).head? ≠ some '|' := by
    intro c u hc hbar
    exact hc (Option.some.inj hbar)
  induction h with
  | @atoms s as h =>
    have happ := read_append s
    have hlegal := legal_of_mem_atoms s
    simp only [read, h] at happ hlegal
    refine ⟨_, happ.symm, unbracketed_atoms fun a ha => (hlegal a ha).formed, ?_⟩
    cases as with
    | nil => simp
    | cons a as =>
      obtain ⟨c, t, htext, hc⟩ := (hlegal a List.mem_cons_self).formed.text_eq_cons
      rw [List.flatMap_cons, htext, List.cons_append]
      refine hfirst ?_
      rcases hc with rfl | ⟨-, hname⟩
      · decide
      · rintro rfl
        cases hname
  | @digit c s hc _ ih | @blank c s hc _ ih =>
    obtain ⟨u, rfl, hu, -⟩ := ih
    have hbare := not_mem_brackets (c := c) (by simp [hc])
    refine ⟨c :: u, rfl, .bare hbare hu, hfirst ?_⟩
    rintro rfl
    cases hc

theorem Remains.endsAttribute_eq (h : Remains rest s) : endsAttribute s = endsAttribute rest := by
  obtain ⟨u, rfl, hu, -⟩ := h.exists_append
  exact hu.endsAttribute_append rest

theorem Remains.eq_of_bar (h : Remains rest ('|' :: s)) : rest = '|' :: s := by
  obtain ⟨u, hu, -, hbar⟩ := h.exists_append
  cases u with
  | nil => exact hu.symm
  | cons c u =>
    obtain ⟨rfl, -⟩ := List.cons.inj hu
    exact absurd rfl hbar

/-! ## The longest run -/

theorem isAtomRun_of_readName? (h : readName? s = some (name, rest)) : IsAtomRun name := by
  obtain ⟨hne, hread⟩ := readName?_eq_some_iff.1 h
  unfold read at hread
  obtain ⟨rfl, -⟩ := Prod.mk.inj hread
  refine ⟨(atoms s).1, ?_, legal_of_mem_atoms s, rfl⟩
  intro hnil
  rw [hnil] at hne
  exact hne rfl

theorem IsAtomRun.ne_nil (h : IsAtomRun name) : name ≠ [] := by
  obtain ⟨as, hne, -, rfl⟩ := h
  obtain ⟨a, as, rfl⟩ := List.exists_cons_of_ne_nil hne
  rw [List.flatMap_cons]
  exact List.append_ne_nil_of_left_ne_nil a.text_ne_nil _

/-- The identifier that is read goes on from every run of atoms. -/
theorem IsAtomRun.prefix_read (h : IsAtomRun name) (hs : name <+: s) : name <+: (read s).1 := by
  obtain ⟨t, rfl⟩ := hs
  obtain ⟨u, ht, -, -⟩ := (h.remains t).exists_append
  have htext : name ++ u ++ (read (name ++ t)).2 =
      (read (name ++ t)).1 ++ (read (name ++ t)).2 := by
    rw [read_append, List.append_assoc, ← ht]
  exact ⟨u, List.append_cancel_right htext⟩

/-- Where any run of atoms stands, a name is read. -/
theorem IsAtomRun.readName?_eq (h : IsAtomRun name) (hs : name <+: s) :
    readName? s = some (read s) := by
  have hprefix := h.prefix_read hs
  have hne : (read s).1 ≠ [] := fun hnil => h.ne_nil (List.prefix_nil.1 (hnil ▸ hprefix))
  exact readName?_eq_some_iff.2 ⟨hne, rfl⟩

/-- The longest of the runs of atoms is the name that is read. -/
theorem isLongest_iff : IsLongest s name ↔ ∃ rest, readName? s = some (name, rest) := by
  constructor
  · rintro ⟨hrun, hs, hlongest⟩
    have hread := hrun.readName?_eq hs
    have hle := hlongest _ (isAtomRun_of_readName? hread) ⟨_, read_append s⟩
    rw [(hrun.prefix_read hs).eq_of_length_le hle]
    exact ⟨_, hread⟩
  · rintro ⟨rest, hread⟩
    obtain ⟨-, heq⟩ := readName?_eq_some_iff.1 hread
    refine ⟨isAtomRun_of_readName? hread, ⟨rest, (readName?_append hread).symm⟩,
      fun other hother hs => ?_⟩
    have hle := (hother.prefix_read hs).length_le
    rwa [heq] at hle

end StylePrune.Identifier
