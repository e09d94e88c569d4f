import StylePrune.Text.Basic

/-!
# Identifiers

An identifier is a run of atoms: a name character, a backslash with the hexadecimal digits of a code
point, or a backslash with any other character that does not end a line. `Identifier.read` takes the
longest run of atoms at the start of a text, `Identifier.decode` replaces the escapes of a text by
what they stand for.
-/

namespace StylePrune.Identifier

def isHexDigit (c : Char) : Bool :=
  ('0' ≤ c && c ≤ '9') || ('a' ≤ c && c ≤ 'f') || ('A' ≤ c && c ≤ 'F')

def hexValue (c : Char) : Nat :=
  if c ≤ '9' then c.toNat - '0'.toNat
  else if c ≤ 'F' then c.toNat - 'A'.toNat + 10
  else c.toNat - 'a'.toNat + 10

def hexNumber (digits : Text) : Nat := digits.foldl (fun n c => 16 * n + hexValue c) 0

/-- The hexadecimal digits at the start of a text, six at most. -/
def hexRun (s : Text) : Text := (s.take 6).takeWhile isHexDigit

/-- A letter or digit of ASCII, an underscore, a hyphen, or any character beyond ASCII. -/
def isNameChar (c : Char) : Bool :=
  c.isAlphanum || c == '_' || c == '-' || 0x80 ≤ c.toNat

/-- One element of an identifier. -/
inductive Atom where
  /-- A character that stands for itself. -/
  | plain (c : Char)
  /-- A backslash with one to six hexadecimal digits, and the blank that ends them, if any. -/
  | code (digits : Text) (terminator : Option Char)
  /-- A backslash with a character that then stands for itself. -/
  | escaped (c : Char)
deriving DecidableEq, Repr

def Atom.text : Atom → Text
  | .plain c => [c]
  | .code digits terminator => '\\' :: digits ++ terminator.toList
  | .escaped c => ['\\', c]

/-- The character that a code point names; zero, surrogates and numbers that are no code point all
name the replacement character. -/
def charOfCode (n : Nat) : Char :=
  if n ≠ 0 ∧ n.isValidChar then Char.ofNat n else '\uFFFD'

/-- Takes one character off the start of a text, if it is a terminator. -/
def takeTerminator (isTerminator : Char → Bool) : Text → Option Char × Text
  | [] => (none, [])
  | c :: rest => if isTerminator c then (some c, rest) else (none, c :: rest)

def Atom.read? : Text → Option (Atom × Text)
  | [] => none
  | '\\' :: c :: rest =>
    if isHexDigit c then
      let digits := hexRun (c :: rest)
      let (terminator, rest) := takeTerminator Text.isBlank ((c :: rest).drop digits.length)
      some (.code digits terminator, rest)
    else if Text.isLineEnd c then none
    else some (.escaped c, rest)
  | c :: rest => if isNameChar c then some (.plain c, rest) else none

/-- A run of hexadecimal digits, joined with what follows it, is the text it was taken from. -/
theorem hexRun_append_drop (s : Text) : hexRun s ++ s.drop (hexRun s).length = s := by
  obtain ⟨t, ht⟩ : hexRun s <+: s := (List.takeWhile_prefix _).trans (List.take_prefix _ _)
  calc hexRun s ++ s.drop (hexRun s).length
      = hexRun s ++ (hexRun s ++ t).drop (hexRun s).length := by rw [ht]
    _ = hexRun s ++ t := by rw [List.drop_left]
    _ = s := ht

theorem takeTerminator_append (p : Char → Bool) (s : Text) :
    (takeTerminator p s).1.toList ++ (takeTerminator p s).2 = s := by
  unfold takeTerminator
  split
  · rfl
  · split <;> rfl

theorem takeTerminator_length_le (p : Char → Bool) (s : Text) :
    (takeTerminator p s).2.length ≤ s.length := by
  have h := congrArg List.length (takeTerminator_append p s)
  rw [List.length_append] at h
  omega

/-- A text that begins with a hexadecimal digit begins with a run of them. -/
theorem hexRun_length_pos {c : Char} (rest : Text) (h : isHexDigit c = true) :
    0 < (hexRun (c :: rest)).length := by
  simp [hexRun, h]

/-- What the atom reader takes, joined with what it leaves, is what it was given. -/
theorem Atom.read?_append {s rest : Text} {a : Atom} (h : Atom.read? s = some (a, rest)) :
    s = a.text ++ rest := by
  unfold Atom.read? at h
  split at h
  · simp at h
  · rename_i c r
    split at h
    · -- the digits, the terminator and the rest make up the text behind the backslash
      simp only [Option.some.injEq, Prod.mk.injEq] at h
      obtain ⟨rfl, rfl⟩ := h
      rw [Atom.text, List.cons_append, List.cons_append, List.append_assoc,
        takeTerminator_append, hexRun_append_drop]
    · split at h
      · simp at h
      · simp only [Option.some.injEq, Prod.mk.injEq] at h
        obtain ⟨rfl, rfl⟩ := h
        rfl
  · split at h
    · simp only [Option.some.injEq, Prod.mk.injEq] at h
      obtain ⟨rfl, rfl⟩ := h
      rfl
    · simp at h

theorem Atom.text_ne_nil (a : Atom) : a.text ≠ [] := by
  cases a <;> simp [Atom.text]

theorem Atom.read?_length_lt {s rest : Text} {a : Atom} (h : Atom.read? s = some (a, rest)) :
    rest.length < s.length := by
  have hpos := List.length_pos_iff.2 a.text_ne_nil
  rw [Atom.read?_append h, List.length_append]
  omega

/-- The longest run of atoms at the start of a text, and the text behind it. -/
def atoms (s : Text) : List Atom × Text :=
  match _h : Atom.read? s with
  | none => ([], s)
  | some (a, rest) =>
    let (as, rest') := atoms rest
    (a :: as, rest')
termination_by s.length
decreasing_by exact Atom.read?_length_lt _h

/-- The identifier at the start of a text, as long as possible and perhaps empty, and the text
behind it. -/
def read (s : Text) : Text × Text :=
  let (as, rest) := atoms s
  (as.flatMap Atom.text, rest)

/-- What the identifier reader takes, joined with what it leaves, is what it was given. -/
theorem read_append (s : Text) : (read s).1 ++ (read s).2 = s := by
  unfold read
  fun_induction atoms s with
  | case1 => simp
  | case2 s a rest h as rest' heq ih =>
    rw [heq] at ih
    simp only [List.flatMap_cons, List.append_assoc, ih]
    exact (Atom.read?_append h).symm

/-- The blanks that end the digits of a code point when an escape is decoded: all but the carriage
return. -/
def endsCode (c : Char) : Bool := c == ' ' || c == '\t' || c == '\n' || c == '\x0c'

/-- Replaces every escape of a text by what it stands for: the digits of a code point, with the one
blank that ends them, by its character; a line end by nothing; any other character by itself. A
backslash at the end of the text is kept. -/
def decode : Text → Text
  | [] => []
  | '\\' :: '\r' :: '\n' :: rest => decode rest
  | '\\' :: c :: rest =>
    if isHexDigit c then
      let digits := hexRun (c :: rest)
      charOfCode (hexNumber digits) ::
        decode (takeTerminator endsCode ((c :: rest).drop digits.length)).2
    else if Text.isLineEnd c then decode rest
    else c :: decode rest
  | c :: rest => c :: decode rest
termination_by s => s.length
decreasing_by
  all_goals simp only [List.length_cons]
  · omega
  · -- a run of digits is not empty, so what follows it is shorter
    have hpos := hexRun_length_pos rest ‹isHexDigit c = true›
    have hle := takeTerminator_length_le endsCode ((c :: rest).drop (hexRun (c :: rest)).length)
    simp only [List.length_drop, List.length_cons] at hle
    omega
  · omega
  · omega
  · omega

/-- Without escapes there is nothing to replace. -/
theorem decode_eq_self {s : Text} (h : '\\' ∉ s) : decode s = s := by
  induction s with
  | nil => rw [decode]
  | cons c s ih =>
    rw [List.mem_cons, not_or] at h
    rw [decode.eq_4 c s (fun _ hc => absurd hc.symm h.1) (fun _ _ hc => absurd hc.symm h.1), ih h.2]

end StylePrune.Identifier
