import Mathlib.Data.List.Infix
import StylePrune.Files.Source
import StylePrune.Proofs.Verdict

/-!
# Content from several files

The texts of content files are joined, each with a space behind it, and a script brings its compact
form along behind another space. A name without spaces that occurs in the whole occurs in one of the
pieces, and the pieces are lower-cased each by itself. So what is found depends on the single files
alone, neither on their order nor on how often one is given, and more files only add to it
(`Usage.uses_contentText_iff`).
-/

namespace StylePrune

/-- What holds no separator occurs on one of its two sides. -/
theorem Text.infix_append_cons_iff {c : Char} {needle a b : Text} (hne : needle ≠ [])
    (hc : c ∉ needle) : needle <:+: a ++ c :: b ↔ needle <:+: a ∨ needle <:+: b := by
  constructor
  · intro h
    rcases List.infix_append_iff.1 h with h | h | ⟨u, v, rfl, hu, hv⟩
    · exact .inl h
    · rcases List.infix_cons_iff.1 h with h | h
      · rcases List.prefix_cons_iff.1 h with rfl | ⟨v, rfl, -⟩
        · exact absurd rfl hne
        · simp at hc
      · exact .inr h
    · -- the part on the right would begin with the separator
      rcases List.prefix_cons_iff.1 hv with rfl | ⟨w, rfl, -⟩
      · exact .inl (by simpa using hu.isInfix)
      · simp at hc
  · rintro (h | h)
    · exact h.trans (List.prefix_append a _).isInfix
    · exact h.trans ((List.suffix_cons c b).trans (List.suffix_append a _)).isInfix

namespace Source

variable {compact : Text → Option Text} {t : FileTree} {widen : Bool} {needle : Text}

/-- A needle is found in a file: in its text, in lower case, or in the compact form of a script. -/
def FoundIn (compact : Text → Option Text) (t : FileTree) (widen : Bool) (needle name : Text) :
    Prop :=
  ∃ s, t.read name = .ok s ∧
    (needle <:+: s.lower ∨
      widen = true ∧ isScript name = true ∧ needle <:+: (Compact.orSame compact s).lower)

/-- The text that a file contributes holds what its text and its compact form hold. -/
theorem infix_lower_widened_iff {name s : Text} (hne : needle ≠ []) (hspace : ' ' ∉ needle) :
    needle <:+: Text.lower (if widen && isScript name then Compact.widenedBy compact s else s) ↔
      needle <:+: s.lower ∨
        widen = true ∧ isScript name = true ∧ needle <:+: (Compact.orSame compact s).lower := by
  by_cases hwiden : (widen && isScript name) = true
  · rw [if_pos hwiden, Compact.widenedBy]
    rw [Bool.and_eq_true] at hwiden
    split
    · rename_i hsame
      rw [hsame]
      simp [hwiden]
    · rw [Text.lower_append_space, Text.infix_append_cons_iff hne hspace]
      simp [hwiden]
  · rw [if_neg hwiden]
    rw [Bool.and_eq_true] at hwiden
    simp only [← and_assoc, hwiden, false_and, or_false]

/-- A needle without spaces occurs in the joined texts exactly when it is found in one of the files.
Induction on the files: the space behind each one parts it from the others. -/
theorem infix_lower_joinFiles_iff {names : List Text} {content : Text} (hne : needle ≠ [])
    (hspace : ' ' ∉ needle) (h : joinFilesBy compact t widen names = .ok content) :
    needle <:+: content.lower ↔ ∃ name ∈ names, FoundIn compact t widen needle name := by
  induction names generalizing content with
  | nil =>
    cases h
    simp [hne]
  | cons name names ih =>
    rw [joinFilesBy] at h
    split at h
    · cases h
    · rename_i s hread
      split at h
      · cases h
      · rename_i rest hrest
        cases h
        have hfirst : FoundIn compact t widen needle name ↔
            needle <:+: s.lower ∨ widen = true ∧ isScript name = true ∧
              needle <:+: (Compact.orSame compact s).lower := by
          simp [FoundIn, hread]
        rw [Text.lower_append_space, Text.infix_append_cons_iff hne hspace,
          infix_lower_widened_iff hne hspace, ih hrest, ← hfirst]
        simp only [List.mem_cons, exists_eq_or_imp]

/-- What is found in the text of a file is found in it when scripts are compacted too. -/
theorem foundIn_widened {name : Text} (h : FoundIn compact t false needle name) :
    FoundIn compact t true needle name := by
  obtain ⟨s, hread, hfound | ⟨hwiden, -⟩⟩ := h
  · exact ⟨s, hread, .inl hfound⟩
  · cases hwiden

/-- Files that can all be read can be joined. -/
theorem exists_joinFiles (compact : Text → Option Text) (widen : Bool) {names : List Text}
    (h : ∀ name ∈ names, ∃ s, t.read name = .ok s) :
    ∃ content, joinFilesBy compact t widen names = .ok content := by
  induction names with
  | nil => exact ⟨[], rfl⟩
  | cons name names ih =>
    obtain ⟨⟨s, hread⟩, hnames⟩ := List.forall_mem_cons.1 h
    obtain ⟨rest, hrest⟩ := ih hnames
    simp only [joinFilesBy, hread, hrest]
    exact ⟨_, rfl⟩

theorem contentTextBy_files_eq_ok {names : List Text} {content : Text}
    (h : contentTextBy compact t (.files names) = .ok content) :
    ∃ joined, joinFilesBy compact t true names = .ok joined ∧ content = joined.lower := by
  rw [contentTextBy] at h
  cases hjoined : joinFilesBy compact t true names with
  | error e =>
    rw [hjoined] at h
    cases h
  | ok joined =>
    rw [hjoined] at h
    cases h
    exact ⟨joined, rfl, rfl⟩

end Source

namespace Usage

variable {compact : Text → Option Text} {t : FileTree} {s : Stylesheet} {p : Part}
  {needle : Text}

/-- The value of the part is in use, among the names that a part of its kind is looked up in. -/
def Uses (u : Usage) (p : Part) : Prop := ∃ names ∈ u.namesOf? p.kind, p.value ∈ names

/-- A value that can be searched for is in use when what it is searched for by occurs. -/
theorem uses_ofContent_iff {content : Text} (hp : p ∈ s.parts) (hneedle : p.needle? = some needle) :
    (ofContent s content).Uses p ↔ needle ≠ [] ∧ needle <:+: content.lower := by
  have hallows : (ofContent s content).allows p = true ↔
      needle ≠ [] ∧ needle <:+: content.lower := by
    rw [allows_ofContent hp, Corpus.allows_ofContent_iff, hneedle]
    simp
  rw [← hallows]
  unfold Uses allows
  unfold Part.needle? at hneedle
  cases hkind : p.kind <;> simp_all [namesOf?]

/-- A value that is searched for by a needle without spaces is in use under content files exactly
when the needle is found in one of them. So neither the order of the files nor how often one is
given matters, and more files, as well as the compact forms of scripts, only add to what is in use.
-/
theorem uses_contentText_iff {names : List Text} (hp : p ∈ s.parts)
    (hneedle : p.needle? = some needle) (hne : needle ≠ []) (hspace : ' ' ∉ needle)
    (hread : ∀ name ∈ names, ∃ text, t.read name = .ok text) :
    ∃ content plain, Source.contentTextBy compact t (.files names) = .ok content ∧
      Source.joinFilesBy compact t false names = .ok plain ∧
      ((ofContent s content).Uses p ↔
        ∃ name ∈ names, Source.FoundIn compact t true needle name) ∧
      ((ofContent s plain).Uses p → (ofContent s content).Uses p) ∧
      ∀ others content', Source.contentTextBy compact t (.files others) = .ok content' →
        names ⊆ others →
          ((ofContent s content).Uses p → (ofContent s content').Uses p) ∧
            (others ⊆ names → ((ofContent s content).Uses p ↔ (ofContent s content').Uses p)) := by
  have huses : ∀ {names' content'}, Source.contentTextBy compact t (.files names') = .ok content' →
      ((ofContent s content').Uses p ↔
        ∃ name ∈ names', Source.FoundIn compact t true needle name) := by
    intro names' content' h
    obtain ⟨joined, hjoined, rfl⟩ := Source.contentTextBy_files_eq_ok h
    rw [uses_ofContent_iff hp hneedle, Text.lower_lower,
      Source.infix_lower_joinFiles_iff hne hspace hjoined]
    exact and_iff_right hne
  obtain ⟨joined, hjoined⟩ := Source.exists_joinFiles compact true hread
  have hcontent : Source.contentTextBy compact t (.files names) = .ok joined.lower := by
    rw [Source.contentTextBy, hjoined]
    rfl
  obtain ⟨plain, hplain⟩ := Source.exists_joinFiles compact false hread
  refine ⟨joined.lower, plain, hcontent, hplain, huses hcontent, ?_, ?_⟩
  · rw [huses hcontent, uses_ofContent_iff hp hneedle,
      Source.infix_lower_joinFiles_iff hne hspace hplain]
    rintro ⟨-, name, hname, hfound⟩
    exact ⟨name, hname, Source.foundIn_widened hfound⟩
  · intro others content' hothers hsub
    rw [huses hcontent, huses hothers]
    have hmore : ∀ {few more : List Text}, few ⊆ more →
        (∃ name ∈ few, Source.FoundIn compact t true needle name) →
          ∃ name ∈ more, Source.FoundIn compact t true needle name :=
      fun hsub ⟨name, hname, hfound⟩ => ⟨name, hsub hname, hfound⟩
    exact ⟨hmore hsub, fun hback => ⟨hmore hsub, hmore hback⟩⟩

/-- A class that only the compact form of a script holds, behind a file that ends with a capital
sigma. -/
theorem uses_contentText_iff_compact :
    let compact : Text → Option Text := fun s => some (s.filter (· != ' '))
    let t : FileTree :=
      ⟨[(⟨[], ["b.html".toList]⟩, .file "ΑΣ".toUTF8),
        (⟨[], ["a.js".toList]⟩, .file "X = B".toUTF8)]⟩
    let names := ["b.html".toList, "a.js".toList]
    let p : Part := ⟨.className, "x\\=b".toList, ".x\\=b".toList⟩
    let s : Stylesheet := .rule [] [⟨[p], [], []⟩] ['{', '}'] (.done [])
    p ∈ s.parts ∧ p.needle? = some "x=b".toList ∧ (∀ name ∈ names, ∃ text, t.read name = .ok text) ∧
      ∃ content, Source.contentTextBy compact t (.files names) = .ok content ∧
        (ofContent s content).Uses p := by
  intro compact t names p s
  have hp : p ∈ s.parts := by
    simp [s, Stylesheet.parts, Stylesheet.selectors, Sheet.heads]
  have hneedle : p.needle? = some "x=b".toList := by
    have hdecode : Identifier.decode "x\\=b".toList = "x=b".toList := by
      simp [Identifier.decode, Identifier.isHexDigit, Text.isLineEnd]
    rw [Part.needle?, hdecode]
    decide +kernel
  have hscript : t.read "a.js".toList = .ok "X = B".toList := by rfl
  have hread : ∀ name ∈ names, ∃ text, t.read name = .ok text :=
    List.forall_mem_cons.2 ⟨⟨"ΑΣ".toList, by rfl⟩, List.forall_mem_singleton.2 ⟨_, hscript⟩⟩
  obtain ⟨content, -, hcontent, -, huses, -⟩ :=
    @uses_contentText_iff compact t s p _ names hp hneedle (by decide) (by decide) hread
  refine ⟨hp, hneedle, hread, content, hcontent, huses.2 ⟨_, by decide, _, hscript, .inr ?_⟩⟩
  decide +kernel

end Usage

end StylePrune
