import StylePrune.Text.Lowercase

/-!
# Lower-casing again, and piece by piece

Lower-casing looks at a capital sigma's neighbours, in both directions and past any number of
accents, so the lower-case form of a text is not that of its pieces. A space, though, is neither a
letter nor passed over: on its two sides the text is lower-cased as if the other side was not there
(`lower_append_space`). And what is in lower case stays so (`lower_lower`): no lower-case form is
the code point of a capital letter, as the runs of the table bear out two by two.
-/

namespace StylePrune.Text

/-! ## Characters in lower case -/

/-- A character that lower-casing leaves alone wherever it stands. -/
def IsLower (c : Char) : Prop := lowerChar c = [c] ∧ c.toNat ≠ 0x3A3

theorem isLower_ascii : ∀ n < 0x80, IsLower (Char.ofNat n).toLower := by
  unfold IsLower
  decide +kernel

/-- The two characters that the dotted capital I becomes, and the two forms of the small sigma. -/
theorem isLower_exceptions : ∀ n ∈ [0x69, 0x307, 0x3C2, 0x3C3], IsLower (Char.ofNat n) := by
  unfold IsLower
  decide +kernel

/-- The table knows the capital letters of ASCII, and the capital sigma. -/
theorem lowerCode_capitals :
    (∀ n < 0x80, (Char.ofNat n).toLower = Char.ofNat n ∨ lowerCode n ≠ n) ∧
      lowerCode 0x3A3 ≠ 0x3A3 := by
  decide +kernel

/-! ## Spaces -/

/-- A space is no letter and is not passed over. -/
theorem caseless_space : isCaseIgnorable ' ' = false ∧ isCased ' ' = false := by
  decide +kernel

/-- A capital sigma is followed by a letter or not, whatever stands behind the next space. -/
theorem beginsCased_append_space (a b : Text) : beginsCased (a ++ ' ' :: b) = beginsCased a := by
  obtain ⟨hpass, hcased⟩ := caseless_space
  induction a with
  | nil => simp [beginsCased, hpass, hcased]
  | cons c a ih =>
    cases hc : isCaseIgnorable c with
    | true => simpa [beginsCased, hc] using ih
    | false => simp [beginsCased, hc]

/-- The two sides of a space are lower-cased each by itself. -/
theorem lower_append_space (a b : Text) : lower (a ++ ' ' :: b) = lower a ++ ' ' :: lower b := by
  obtain ⟨hpass, hcased⟩ := caseless_space
  have hfrom : ∀ cased, lowerFrom cased (a ++ ' ' :: b) = lowerFrom cased a ++ ' ' :: lower b := by
    induction a with
    | nil =>
      intro cased
      have hbehind :
          lowerFrom (if isCaseIgnorable ' ' then cased else isCased ' ') b = lower b := by
        rw [hpass, hcased]
        rfl
      have hstep : lowerFrom cased (' ' :: b) =
          ' ' :: lowerFrom (if isCaseIgnorable ' ' then cased else isCased ' ') b := rfl
      exact hstep.trans (by rw [hbehind]; rfl)
    | cons c a ih =>
      intro cased
      rw [List.cons_append, lowerFrom, lowerFrom, beginsCased_append_space, ih, List.append_assoc]
  exact hfrom false

/-! ## The table of lower-case forms -/

def CaseRun.holds (run : CaseRun) (n : Nat) : Bool :=
  run.first ≤ n && n ≤ run.last && (n - run.first) % run.step == 0

/-- The run lies apart from the lower-case forms between `first` and `last`: before them, behind
them, or, where these are `sparse`, in their gaps. -/
def CaseRun.avoids (run : CaseRun) (first last : Nat) (sparse : Bool) : Bool :=
  run.last.blt first || last.blt run.first ||
    (run.step == 2 && sparse && (first + run.first) % 2 == 1)

/-- No lower-case form of the run is the code point of a capital letter; the dotted capital I is
none of the table. -/
def CaseRun.isSettled (run : CaseRun) : Bool :=
  let first := (run.first + run.shift).toNat
  let last := (run.last + run.shift).toNat
  let sparse := run.step == 2 || run.first == run.last
  decide (0 ≤ run.first + run.shift) &&
    (⟨0x130, 0x130, 1, 0⟩ :: caseRuns).all fun other => other.avoids first last sparse

theorem caseRuns_settled : caseRuns.all CaseRun.isSettled = true := by
  decide +kernel

/-- A run that lies apart from lower-case forms holds none of them. -/
theorem CaseRun.not_holds_of_avoids {run other : CaseRun} {n : Nat} (hn : run.holds n = true)
    (hpos : 0 ≤ run.first + run.shift)
    (h : other.avoids (run.first + run.shift).toNat (run.last + run.shift).toNat
      (run.step == 2 || run.first == run.last) = true) :
    other.holds (n + run.shift).toNat = false := by
  simp only [holds, avoids, Bool.and_eq_true, Bool.or_eq_true, decide_eq_true_eq, beq_iff_eq,
    Nat.blt_eq] at hn h
  rw [Bool.eq_false_iff]
  intro hheld
  simp only [holds, Bool.and_eq_true, decide_eq_true_eq, beq_iff_eq] at hheld
  obtain ⟨⟨hfirst, hlast⟩, hstep⟩ := hn
  obtain ⟨⟨hfirst', hlast'⟩, hstep'⟩ := hheld
  rcases h with (h | h) | ⟨⟨htwo, hsparse⟩, hodd⟩
  · omega
  · omega
  · rw [htwo] at hstep'
    rcases hsparse with hsparse | hsparse
    · rw [hsparse] at hstep
      omega
    · omega

/-- A code point that no run holds has no other lower-case form. -/
theorem lowerCode_eq_self {n : Nat} (h : ∀ run ∈ caseRuns, run.holds n = false) :
    lowerCode n = n := by
  have hnone : (caseRuns.find? fun run => run.holds n) = none :=
    List.find?_eq_none.2 fun run hrun => by simp [h run hrun]
  unfold lowerCode
  split
  · rename_i run hrun
    exact absurd (hnone.symm.trans hrun) (by simp)
  · rfl

/-- A lower-case form is its own lower-case form. -/
theorem lowerCode_lowerCode (n : Nat) :
    lowerCode (lowerCode n) = lowerCode n ∧ (n ≠ 0x130 → lowerCode n ≠ 0x130) := by
  cases hfind : caseRuns.find? fun run => run.holds n with
  | none =>
    have hself : lowerCode n = n := by
      refine lowerCode_eq_self fun run hrun => ?_
      simpa using List.find?_eq_none.1 hfind run hrun
    exact ⟨by rw [hself, hself], fun hn => by rwa [hself]⟩
  | some run =>
    have hcode : lowerCode n = (n + run.shift).toNat := by
      unfold lowerCode
      split
      · rename_i found hfound
        cases hfind.symm.trans hfound
        rfl
      · rename_i hnone
        cases hfind.symm.trans hnone
    have hsettled := List.all_eq_true.1 caseRuns_settled run (List.mem_of_find?_eq_some hfind)
    simp only [CaseRun.isSettled, Bool.and_eq_true, decide_eq_true_eq, List.all_eq_true] at hsettled
    have hheld : run.holds n = true := by simpa using List.find?_some hfind
    have hnot : ∀ other ∈ ⟨0x130, 0x130, 1, 0⟩ :: caseRuns, other.holds (lowerCode n) = false := by
      intro other hother
      rw [hcode]
      exact CaseRun.not_holds_of_avoids hheld hsettled.1 (hsettled.2 other hother)
    refine ⟨lowerCode_eq_self fun other hother => hnot other (List.mem_cons_of_mem _ hother), ?_⟩
    intro _ hdotted
    have hheld' := hnot _ List.mem_cons_self
    rw [hdotted] at hheld'
    exact absurd hheld' (by decide)

/-! ## Texts in lower case -/

theorem lowerChar_ne_nil (c : Char) : lowerChar c ≠ [] := by
  unfold lowerChar
  split
  · simp
  · split <;> simp

/-- Only the empty text has an empty lower-case form. -/
@[simp] theorem lower_eq_nil_iff {s : Text} : lower s = [] ↔ s = [] := by
  cases s with
  | nil => simp
  | cons c s =>
    simp only [lower, lowerFrom, List.append_eq_nil_iff, reduceCtorEq, iff_false, not_and]
    intro hc
    split at hc
    · cases hc
    · exact absurd hc (lowerChar_ne_nil c)

/-- A character with no other lower-case form is in lower case, the dotted capital I apart. -/
theorem isLower_of_lowerCode {c : Char} (hself : lowerCode c.toNat = c.toNat)
    (hdotted : c.toNat ≠ 0x130) : IsLower c := by
  obtain ⟨hascii, hsigma⟩ := lowerCode_capitals
  refine ⟨?_, fun hc => hsigma (by rwa [hc] at hself)⟩
  unfold lowerChar
  split
  · rename_i hlt
    have hlower := (hascii c.toNat hlt).resolve_right fun hne => hne hself
    rw [Char.ofNat_toNat] at hlower
    rw [hlower]
  · rw [if_neg (by simpa using hdotted), hself, Char.ofNat_toNat]

/-- The lower-case form of a character is in lower case. -/
theorem isLower_of_mem_lowerChar {c d : Char} (hd : d ∈ lowerChar c) : IsLower d := by
  unfold lowerChar at hd
  split at hd
  · rename_i hascii
    rw [List.mem_singleton] at hd
    have hlower := isLower_ascii c.toNat hascii
    rwa [Char.ofNat_toNat, ← hd] at hlower
  · split at hd
    · rcases List.mem_cons.1 hd with rfl | hd
      · exact isLower_exceptions 0x69 (by simp)
      · rw [List.mem_singleton.1 hd]
        exact isLower_exceptions 0x307 (by simp)
    · rename_i hdotted
      rw [List.mem_singleton.1 hd]
      obtain ⟨hself, hnot⟩ := lowerCode_lowerCode c.toNat
      by_cases hvalid : (lowerCode c.toNat).isValidChar
      · have hcode : (Char.ofNat (lowerCode c.toNat)).toNat = lowerCode c.toNat := by
          rw [Char.ofNat, dif_pos hvalid]
          rfl
        refine isLower_of_lowerCode (by rw [hcode, hself]) ?_
        rw [hcode]
        exact hnot (by simpa using hdotted)
      · have hnull : IsLower '\x00' := ⟨by decide, by decide⟩
        rw [Char.ofNat, dif_neg hvalid]
        exact hnull

/-- What is in lower case is lower-cased by leaving it alone. -/
theorem lowerFrom_eq_self {s : Text} (h : ∀ c ∈ s, IsLower c) (cased : Bool) :
    lowerFrom cased s = s := by
  induction s generalizing cased with
  | nil => rfl
  | cons c s ih =>
    obtain ⟨⟨hchar, hsigma⟩, hs⟩ := List.forall_mem_cons.1 h
    rw [lowerFrom, if_neg (by simpa using hsigma), hchar, ih hs]
    rfl

theorem isLower_of_mem_lowerFrom {cased : Bool} {s : Text} {d : Char}
    (hd : d ∈ lowerFrom cased s) : IsLower d := by
  induction s generalizing cased with
  | nil => cases hd
  | cons c s ih =>
    rw [lowerFrom, List.mem_append] at hd
    rcases hd with hd | hd
    · split at hd
      · rw [List.mem_singleton.1 hd]
        apply isLower_exceptions
        split <;> simp
      · exact isLower_of_mem_lowerChar hd
    · exact ih hd

/-- Lower-casing again changes nothing. -/
theorem lower_lower (s : Text) : lower (lower s) = lower s :=
  lowerFrom_eq_self (fun _ => isLower_of_mem_lowerFrom) false

end StylePrune.Text
