import StylePrune.Proofs.Beginnings
import StylePrune.Proofs.Retention

/-!
# Escapes as they are read and as they are decoded

An identifier is spelled by atoms, each as long as it can be at its place. The reader and the decoder
of escapes cut an identifier at the same places but for one: the reader lets a carriage return end
the digits of a code point, the decoder keeps it as a character of the name.

* **`Identifier.spells_atoms`**, **`Identifier.Spells.atoms_eq`** — the reader takes the one greedy
  spelling that there is.
* **`Identifier.Spells.decode`** — what the decoder makes of each atom.
* **`Selector.decode_value_iff`** — the value of a checked part decodes to the meanings of its atoms
  exactly when no carriage return ends a code point in it.
-/

namespace StylePrune

namespace Identifier

/-- The character that an atom stands for. -/
def Atom.meaning : Atom → Char
  | .plain c => c
  | .code digits _ => charOfCode (hexNumber digits)
  | .escaped c => c

/-- A code point that is a character names itself; the others name the replacement character. -/
theorem toNat_charOfCode (n : Nat) :
    (charOfCode n).toNat =
      if n = 0 ∨ (0xD800 ≤ n ∧ n ≤ 0xDFFF) ∨ 0x10FFFF < n then 0xFFFD else n := by
  unfold charOfCode
  by_cases hn : n ≠ 0 ∧ n.isValidChar
  · have hvalid : n < 0xD800 ∨ (0xDFFF < n ∧ n < 0x110000) := hn.2
    rw [if_pos hn, if_neg (by omega), Char.ofNat, dif_pos hn.2]
    rfl
  · have hvalid : ¬ (n ≠ 0 ∧ (n < 0xD800 ∨ (0xDFFF < n ∧ n < 0x110000))) := hn
    rw [if_neg hn, if_pos (by omega)]
    rfl

/-- The text is spelled by the atoms, each of them as long as it can be at its place: the digits of a
code point end at the sixth or before a character that is no digit, and go on with the blank behind
them if there is one. -/
inductive Spells : Text → List Atom → Prop
  | nil : Spells [] []
  | plain {c : Char} {s : Text} {as : List Atom} (hname : isNameChar c = true) (h : Spells s as) :
      Spells (c :: s) (.plain c :: as)
  | code {digits : Text} {terminator : Option Char} {s : Text} {as : List Atom}
      (hne : digits ≠ []) (hsix : digits.length ≤ 6) (hdigits : ∀ c ∈ digits, isHexDigit c = true)
      (hlongest : digits.length < 6 → ∀ c ∈ (terminator.toList ++ s).head?, isHexDigit c = false)
      (hblank : ∀ c ∈ terminator, Text.isBlank c = true)
      (hbare : terminator = none → ∀ c ∈ s.head?, Text.isBlank c = false) (h : Spells s as) :
      Spells ('\\' :: digits ++ terminator.toList ++ s) (.code digits terminator :: as)
  | escaped {c : Char} {s : Text} {as : List Atom} (hhex : isHexDigit c = false)
      (hline : Text.isLineEnd c = false) (h : Spells s as) :
      Spells ('\\' :: c :: s) (.escaped c :: as)

/-! ## Runs of digits and what ends them -/

theorem hexRun_length_le (s : Text) : (hexRun s).length ≤ 6 :=
  (List.takeWhile_prefix _).length_le.trans (List.length_take_le 6 s)

theorem not_of_takeWhile_take {p : Char → Bool} {n : Nat} {s : Text}
    (hlt : ((s.take n).takeWhile p).length < n) :
    ∀ c ∈ (s.drop ((s.take n).takeWhile p).length).head?, p c = false := by
  induction n generalizing s with
  | zero => cases hlt
  | succ n ih =>
    cases s with
    | nil => simp
    | cons d s =>
      by_cases hd : p d = true
      · simp only [List.take_succ_cons, List.takeWhile_cons, hd, if_true, List.length_cons,
          List.drop_succ_cons] at hlt ⊢
        exact ih (by omega)
      · simp [hd]

/-- A run of fewer than six digits ends where the digits end. -/
theorem hexRun_longest {s : Text} (h : (hexRun s).length < 6) :
    ∀ c ∈ (s.drop (hexRun s).length).head?, isHexDigit c = false :=
  not_of_takeWhile_take h

theorem hexRun_append {digits s : Text} (hsix : digits.length ≤ 6)
    (hdigits : ∀ c ∈ digits, isHexDigit c = true)
    (hlongest : digits.length < 6 → ∀ c ∈ s.head?, isHexDigit c = false) :
    hexRun (digits ++ s) = digits := by
  have hrest : (s.take (6 - digits.length)).takeWhile isHexDigit = [] := by
    rcases Nat.lt_or_ge digits.length 6 with hlt | hge
    · cases s with
      | nil => simp
      | cons c s =>
        obtain ⟨n, hn⟩ : ∃ n, 6 - digits.length = n + 1 := ⟨5 - digits.length, by omega⟩
        rw [hn, List.take_succ_cons, List.takeWhile_cons, hlongest hlt c rfl]
        rfl
    · rw [Nat.sub_eq_zero_of_le hge]
      rfl
  unfold hexRun
  rw [List.take_append, List.take_of_length_le hsix, List.takeWhile_append_of_pos hdigits, hrest,
    List.append_nil]

theorem takeTerminator_of_not {p : Char → Bool} {s : Text} (h : ∀ c ∈ s.head?, p c = false) :
    takeTerminator p s = (none, s) := by
  cases s with
  | nil => rfl
  | cons c s => simp [takeTerminator, h c rfl]

theorem not_of_takeTerminator_eq_none {p : Char → Bool} {s : Text}
    (h : (takeTerminator p s).1 = none) : ∀ c ∈ (takeTerminator p s).2.head?, p c = false := by
  cases s with
  | nil => simp [takeTerminator]
  | cons d s =>
    by_cases hd : p d = true
    · simp [takeTerminator, hd] at h
    · simp [takeTerminator, hd]

/-! ## Reading -/

/-- The atom and the text behind it tell that the digits of a code point, and the blank that ends
them, were taken as far as they go. -/
theorem Atom.read?_eq_code {s digits rest : Text} {terminator : Option Char}
    (h : Atom.read? s = some (.code digits terminator, rest)) :
    digits ≠ [] ∧ digits.length ≤ 6 ∧ (∀ c ∈ digits, isHexDigit c = true) ∧
      (digits.length < 6 → ∀ c ∈ (terminator.toList ++ rest).head?, isHexDigit c = false) ∧
      (∀ c ∈ terminator, Text.isBlank c = true) ∧
      (terminator = none → ∀ c ∈ rest.head?, Text.isBlank c = false) := by
  unfold Atom.read? at h
  split at h
  · cases h
  · rename_i c r
    split at h
    · rename_i hhex
      simp only [Option.some.injEq, Prod.mk.injEq, Atom.code.injEq] at h
      obtain ⟨⟨rfl, rfl⟩, rfl⟩ := h
      refine ⟨List.ne_nil_of_length_pos (hexRun_length_pos r hhex), hexRun_length_le _,
        fun d => List.mem_takeWhile_imp, fun hlt => ?_, fun d => of_mem_takeTerminator,
        not_of_takeTerminator_eq_none⟩
      rw [takeTerminator_append]
      exact hexRun_longest hlt
    · split at h <;> cases h
  · split at h <;> cases h

/-- The atom that is read at a place is as long as it can be. -/
theorem Spells.of_read? {s rest : Text} {a : Atom} {as : List Atom}
    (ha : Atom.read? s = some (a, as.flatMap Atom.text ++ rest))
    (h : Spells (as.flatMap Atom.text) as) : Spells (a.text ++ as.flatMap Atom.text) (a :: as) := by
  cases a with
  | plain c =>
    have hc : Atom.Formed (.plain c) := Atom.formed_of_read? ha
    cases hc with
    | plain hname => exact .plain hname h
  | escaped c =>
    have hc : Atom.Formed (.escaped c) := Atom.formed_of_read? ha
    cases hc with
    | escaped hhex hline => exact .escaped hhex hline h
  | code digits terminator =>
    obtain ⟨hne, hsix, hdigits, hlongest, hblank, hbare⟩ := Atom.read?_eq_code ha
    -- each bound holds of the whole rest, so of the part of it that is spelled
    refine .code hne hsix hdigits (fun hlt x hx => hlongest hlt x ?_) hblank
      (fun hnone x hx => hbare hnone x (List.mem_head?_append_of_mem_head? hx)) h
    rw [← List.append_assoc]
    exact List.mem_head?_append_of_mem_head? hx

/-- What is read as an identifier is spelled by the atoms that are read. -/
theorem spells_atoms (s : Text) : Spells (read s).1 (atoms s).1 := by
  unfold read
  fun_induction atoms s with
  | case1 => exact .nil
  | case2 s a rest h as rest' heq ih =>
    have hrest := read_append rest
    unfold read at hrest
    rw [heq] at ih hrest
    rw [← hrest] at h
    exact .of_read? h ih

theorem Atom.read?_code {digits s : Text} {terminator : Option Char} (hne : digits ≠ [])
    (hsix : digits.length ≤ 6) (hdigits : ∀ c ∈ digits, isHexDigit c = true)
    (hlongest : digits.length < 6 → ∀ c ∈ (terminator.toList ++ s).head?, isHexDigit c = false)
    (hblank : ∀ c ∈ terminator, Text.isBlank c = true)
    (hbare : terminator = none → ∀ c ∈ s.head?, Text.isBlank c = false) :
    Atom.read? ('\\' :: digits ++ terminator.toList ++ s) = some (.code digits terminator, s) := by
  have hrun := hexRun_append hsix hdigits hlongest
  have hterminator : takeTerminator Text.isBlank (terminator.toList ++ s) = (terminator, s) := by
    cases terminator with
    | none => exact takeTerminator_of_not (hbare rfl)
    | some b => simp [takeTerminator, hblank b rfl]
  obtain ⟨d, ds, rfl⟩ := List.exists_cons_of_ne_nil hne
  have hd := hdigits d List.mem_cons_self
  rw [List.cons_append] at hrun
  simp only [List.cons_append, List.append_assoc, Atom.read?, hd, if_true]
  rw [hrun, ← List.cons_append, List.drop_left, hterminator]

/-- A text has one spelling at most: the atoms that are read from it. -/
theorem Spells.atoms_eq {s : Text} {as : List Atom} (h : Spells s as) : atoms s = (as, []) := by
  induction h with
  | nil =>
    rw [atoms]
    rfl
  | plain hname _ ih => rw [Selector.atoms_some (Selector.atom_plain hname _), ih]
  | code hne hsix hdigits hlongest hblank hbare _ ih =>
    rw [Selector.atoms_some (Atom.read?_code hne hsix hdigits hlongest hblank hbare), ih]
  | @escaped c s as hhex hline _ ih =>
    have hread : Atom.read? ('\\' :: c :: s) = some (.escaped c, s) := by
      simp [Atom.read?, hhex, hline]
    rw [Selector.atoms_some hread, ih]

theorem Spells.text_eq {s : Text} {as : List Atom} (h : Spells s as) :
    as.flatMap Atom.text = s := by
  have happ := read_append s
  unfold read at happ
  rw [h.atoms_eq, List.append_nil] at happ
  exact happ

/-! ## Decoding -/

/-- Whether a carriage return ends the digits of the atom. -/
def Atom.endsInReturn : Atom → Bool
  | .code _ terminator => terminator = some '\r'
  | _ => false

/-- What the decoder makes of an atom. -/
def Atom.decoded (a : Atom) : Text :=
  a.meaning :: if a.endsInReturn then ['\r'] else []

theorem endsCode_iff {c : Char} (h : Text.isBlank c = true) : endsCode c = true ↔ c ≠ '\r' := by
  simp only [Text.isBlank, Bool.or_eq_true, beq_iff_eq] at h
  rcases h with (((rfl | rfl) | rfl) | rfl) | rfl <;> decide

theorem decode_plain {c : Char} (hc : c ≠ '\\') (s : Text) : decode (c :: s) = c :: decode s :=
  decode.eq_4 c s (fun _ h => absurd h hc) (fun _ _ h => absurd h hc)

/-- Behind the digits of a code point the decoder takes the blank along, unless it is a carriage
return. -/
theorem decode_takeTerminator (digits : Text) {s : Text} {terminator : Option Char}
    (hblank : ∀ c ∈ terminator, Text.isBlank c = true)
    (hbare : terminator = none → ∀ c ∈ s.head?, Text.isBlank c = false) :
    decode (takeTerminator endsCode (terminator.toList ++ s)).2 =
      (if (Atom.code digits terminator).endsInReturn then ['\r'] else []) ++ decode s := by
  cases terminator with
  | none =>
    have hends : ∀ c ∈ s.head?, endsCode c = false := fun c hc => by
      have := hbare rfl c hc
      simp only [Text.isBlank, Bool.or_eq_false_iff] at this
      simp [endsCode, this]
    simp [takeTerminator_of_not hends, Atom.endsInReturn]
  | some b =>
    by_cases hb : b = '\r'
    · subst hb
      exact decode_plain (by decide) s
    · simp [takeTerminator, (endsCode_iff (hblank b rfl)).2 hb, Atom.endsInReturn, hb]

/-- The decoder replaces each atom by the character it stands for, and keeps a carriage return that
ends a code point. -/
theorem Spells.decode {s : Text} {as : List Atom} (h : Spells s as) :
    decode s = as.flatMap Atom.decoded := by
  induction h with
  | nil => rw [Identifier.decode, List.flatMap_nil]
  | @plain c s as hname _ ih =>
    have hback : c ≠ '\\' := by
      rintro rfl
      cases hname
    rw [decode_plain hback, ih]
    rfl
  | @code digits terminator s as hne hsix hdigits hlongest hblank hbare _ ih =>
    have hrun := hexRun_append hsix hdigits hlongest
    have hbehind := decode_takeTerminator digits hblank hbare
    obtain ⟨d, ds, rfl⟩ := List.exists_cons_of_ne_nil hne
    have hd := hdigits d List.mem_cons_self
    have hreturn : d ≠ '\r' := by
      rintro rfl
      cases hd
    -- reader and decoder take the same digits; they differ in what may end them
    rw [List.cons_append] at hrun
    rw [List.append_assoc, List.cons_append, List.cons_append, decode_escape hreturn, if_pos hd,
      hrun, ← List.cons_append, List.drop_left, hbehind, ih]
    rfl
  | @escaped c s as hhex hline _ ih =>
    have hreturn : c ≠ '\r' := by
      rintro rfl
      cases hline
    rw [decode_escape hreturn, hhex, if_neg Bool.false_ne_true, hline, if_neg Bool.false_ne_true,
      ih]
    rfl

/-- Nothing but the digits of a code point is followed by a carriage return in an identifier. -/
theorem Spells.return_mem_iff {s : Text} {as : List Atom} (h : Spells s as) :
    '\r' ∈ s ↔ ∃ a ∈ as, a.endsInReturn = true := by
  induction h with
  | nil => simp
  | @plain c s as hname _ ih =>
    have hc : '\r' ≠ c := by
      rintro rfl
      cases hname
    simp [hc, ih, Atom.endsInReturn]
  | @code digits terminator s as _ _ hdigits _ _ _ _ ih =>
    have hmem : '\r' ∉ digits := fun h => by cases hdigits _ h
    simp [hmem, ih, Atom.endsInReturn]
  | @escaped c s as _ hline _ ih =>
    have hc : '\r' ≠ c := by
      rintro rfl
      cases hline
    simp [hc, ih, Atom.endsInReturn]

theorem length_le_flatMap_decoded (as : List Atom) :
    as.length ≤ (as.flatMap Atom.decoded).length := by
  induction as with
  | nil => exact Nat.le_refl 0
  | cons a as ih =>
    simp only [List.flatMap_cons, List.length_append, List.length_cons, Atom.decoded]
    omega

/-- The atoms of a list decode to one character each exactly when no carriage return is kept. -/
theorem flatMap_decoded_eq_iff (as : List Atom) :
    as.flatMap Atom.decoded = as.map Atom.meaning ↔ ¬ ∃ a ∈ as, a.endsInReturn = true := by
  refine ⟨fun heq => ?_, fun h => ?_⟩
  · rintro ⟨a, ha, hreturn⟩
    -- a carriage return that is kept makes the text longer than the list
    have hlength := congrArg List.length heq
    obtain ⟨u, v, rfl⟩ := List.append_of_mem ha
    have hu := length_le_flatMap_decoded u
    have hv := length_le_flatMap_decoded v
    simp only [List.flatMap_append, List.flatMap_cons, List.length_append, List.length_map,
      List.length_cons, Atom.decoded, hreturn, if_true, List.length_nil] at hlength
    omega
  · induction as with
    | nil => rfl
    | cons a as ih =>
      simp only [List.exists_mem_cons_iff, not_or, Bool.not_eq_true] at h
      rw [List.flatMap_cons, List.map_cons, ih (by simpa using h.2), Atom.decoded, h.1]
      rfl

/-- What is read as a name is spelled by its atoms. -/
theorem spells_of_isName {name : Text} (h : IsName name) : ∃ as, Spells name as := by
  obtain ⟨s, rest, h⟩ := h
  unfold readName? at h
  split at h
  · cases h
  · rename_i heq
    cases h
    exact ⟨_, by simpa only [heq] using spells_atoms s⟩

end Identifier

namespace Selector

open Identifier in
/-- The value of a checked part has one spelling. The decoder gives the characters that its atoms
stand for, and a carriage return behind each code point that ends in one. -/
theorem decode_value_iff {text : Text} {s : Selector} (h : parse text = .ok s) {p : Part}
    (hp : p ∈ s.parts) (hchecked : p.isChecked = true) :
    ∃ as : List Atom, Spells p.value as ∧ (∀ bs, Spells p.value bs → bs = as) ∧
      decode p.value = as.flatMap Atom.decoded ∧
      (decode p.value = as.map Atom.meaning ↔ '\r' ∉ p.value) := by
  obtain ⟨as, has⟩ := spells_of_isName (isName_of_parse h p hp hchecked)
  refine ⟨as, has, fun bs hbs => ?_, has.decode, ?_⟩
  · exact (Prod.mk.inj (hbs.atoms_eq.symm.trans has.atoms_eq)).1
  · rw [has.decode, flatMap_decoded_eq_iff, has.return_mem_iff]

open Identifier in
/-- A class whose name holds an escaped colon and a code point that a space ends. -/
theorem decode_value_iff_class :
    let p : Part := ⟨.className, "a\\:\\62 c".toList, ".a\\:\\62 c".toList⟩
    parse ".a\\:\\62 c".toList = .ok ⟨[p], [], []⟩ ∧
      ∃ as, Spells p.value as ∧ decode p.value = as.map Atom.meaning ∧
        decode p.value = "a:bc".toList := by
  intro p
  have hparse : parse ".a\\:\\62 c".toList = .ok ⟨[p], [], []⟩ := by decide +kernel
  obtain ⟨as, hspells, -, -, hdecode⟩ := decode_value_iff hparse List.mem_cons_self rfl
  exact ⟨hparse, as, hspells, hdecode.2 (by decide +kernel), by decide +kernel⟩

open Identifier in
/-- The carriage return that ends the digits of a class is taken for a part of its name. -/
theorem decode_keeps_return :
    let p : Part := ⟨.className, "\\61\r".toList, ".\\61\r".toList⟩
    let as : List Atom := [.code "61".toList (some '\r')]
    parse ".\\61\r".toList = .ok ⟨[p], [], []⟩ ∧ Spells p.value as ∧
      decode p.value = "a\r".toList ∧ as.map Atom.meaning = "a".toList := by
  intro p as
  have hspells : Spells p.value as := by
    refine @Spells.code "61".toList (some '\r') [] [] (by decide) (by decide)
      (List.all_eq_true.1 (by decide)) ?_ ?_ nofun .nil
    · rintro _ _ ⟨⟩
      rfl
    · rintro _ ⟨⟩
      rfl
  exact ⟨by decide +kernel, hspells, by decide +kernel, by decide +kernel⟩

end Selector

end StylePrune
