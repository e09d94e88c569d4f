import StylePrune.Proofs.Tokens

/-!
# Blocks and markers

Inside a block a marker is refused right behind the brace that closes an inner one, and part of a
chunk everywhere else. So what may stand behind such a brace is what may stand elsewhere and does
not begin with a marker (`flows_closed_iff`), and a block is read exactly when its text can be read
character by character (`readBody_eq_ok_iff`).
-/

namespace StylePrune

open Mode

/-! ## Markers -/

/-- A text begins with a marker. -/
def MarkerFirst (s : Text) : Prop := ['<', '!', '-', '-'] <+: s ∨ ['-', '-', '>'] <+: s

/-- A text begins with a marker, blanks skipped. -/
def MarkerAhead (s : Text) : Prop := MarkerFirst (s.dropWhile Text.isBlank)

instance (s : Text) : Decidable (MarkerFirst s) := inferInstanceAs (Decidable (_ ∨ _))

instance (s : Text) : Decidable (MarkerAhead s) := inferInstanceAs (Decidable (MarkerFirst _))

theorem readMarker?_eq_none_iff {s : Text} : Token.readMarker? s = none ↔ ¬ MarkerFirst s := by
  unfold Token.readMarker?
  split
  · simp [MarkerFirst]
  · simp [MarkerFirst]
  · rename_i hopen hclose
    simp only [true_iff]
    rintro (⟨r, hr⟩ | ⟨r, hr⟩)
    · exact hopen r hr.symm
    · exact hclose r hr.symm

theorem markerAhead_blanks_append {gap : Text} (h : ∀ c ∈ gap, Text.isBlank c = true) (s : Text) :
    MarkerAhead (gap ++ s) ↔ MarkerAhead s := by
  rw [MarkerAhead, List.dropWhile_append_of_pos h, MarkerAhead]

/-- Where no blank comes first, a marker is ahead when it comes first. -/
theorem markerAhead_iff_markerFirst {s : Text} (h : ∀ c ∈ s.head?, Text.isBlank c = false) :
    MarkerAhead s ↔ MarkerFirst s := by
  cases s with
  | nil => rfl
  | cons c s => rw [MarkerAhead, List.dropWhile_cons_of_neg (by simp [h c rfl])]

/-- What stands from a character on that is none of a prefix decides nothing about that prefix. -/
theorem prefix_append_iff {x : Char} {l : Text} (hl : x ∉ l) (s r : Text) :
    l <+: s ++ x :: r ↔ l <+: s := by
  constructor
  · intro h
    by_cases hlen : l.length ≤ s.length
    · exact List.prefix_of_prefix_length_le h (List.prefix_append s _) hlen
    · -- otherwise the prefix goes beyond `s` and holds `x`
      have hs : s ++ [x] <+: l := by
        have hpre : s ++ [x] <+: s ++ x :: r := ⟨r, by simp⟩
        refine List.prefix_of_prefix_length_le hpre h ?_
        rw [List.length_append, List.length_singleton]
        omega
      exact absurd (hs.subset (by simp)) hl
  · intro h
    exact h.trans (List.prefix_append s _)

theorem markerFirst_append_iff {x : Char} (hx : x ∉ ['<', '!', '-', '>']) (s r : Text) :
    MarkerFirst (s ++ x :: r) ↔ MarkerFirst s := by
  simp only [List.mem_cons, List.not_mem_nil, or_false, not_or] at hx
  rw [MarkerFirst, prefix_append_iff (by simp [hx]), prefix_append_iff (by simp [hx]), MarkerFirst]

/-- What stands from a character on that is no blank and none of a marker decides nothing about a
marker ahead. -/
theorem markerAhead_append_iff_of {x : Char} (hblank : Text.isBlank x = false)
    (hx : x ∉ ['<', '!', '-', '>']) (s r : Text) : MarkerAhead (s ++ x :: r) ↔ MarkerAhead s := by
  obtain ⟨gap, v, rfl, hgap, hv⟩ := Text.exists_blanks s
  have hhead : ∀ c ∈ (v ++ x :: r).head?, Text.isBlank c = false := by
    cases v with
    | nil => simpa using hblank
    | cons c v => exact hv
  rw [List.append_assoc, markerAhead_blanks_append hgap, markerAhead_blanks_append hgap,
    markerAhead_iff_markerFirst hhead, markerAhead_iff_markerFirst hv, markerFirst_append_iff hx]

theorem markerAhead_append_iff {x : Char} (hx : isStructural x = true) (s r : Text) :
    MarkerAhead (s ++ x :: r) ↔ MarkerAhead s := by
  refine markerAhead_append_iff_of (Token.isBlank_structural hx) ?_ s r
  simp only [isStructural, Bool.or_eq_true, beq_iff_eq] at hx
  rcases hx with (rfl | rfl) | rfl <;> decide

/-- A marker that is ahead stays ahead when more text follows. -/
theorem MarkerAhead.append_right {s : Text} (h : MarkerAhead s) (r : Text) :
    MarkerAhead (s ++ r) := by
  obtain ⟨gap, v, rfl, hgap, hv⟩ := Text.exists_blanks s
  rw [markerAhead_blanks_append hgap, markerAhead_iff_markerFirst hv] at h
  have hfirst : MarkerFirst (v ++ r) := by
    rcases h with h | h
    · exact .inl (h.trans (List.prefix_append v r))
    · exact .inr (h.trans (List.prefix_append v r))
  have hhead : ∀ c ∈ (v ++ r).head?, Text.isBlank c = false := by
    rcases h with ⟨w, rfl⟩ | ⟨w, rfl⟩
    · exact hv
    · exact hv
  rw [List.append_assoc, markerAhead_blanks_append hgap, markerAhead_iff_markerFirst hhead]
  exact hfirst

/-- Where no marker is ahead, it does not matter whether one is awaited. -/
theorem nextToken_of_not_markerAhead {s : Text} (h : ¬ MarkerAhead s) (markers : Bool) :
    nextToken markers s = nextToken false s := by
  cases markers with
  | false => rfl
  | true =>
    have hnone := readMarker?_eq_none_iff.2 h
    unfold nextToken
    split
    · rfl
    · rename_i c r hdrop
      have hread : Token.read? true (c :: r) = Token.read? false (c :: r) := by
        rw [hdrop] at hnone
        simp [Token.read?, hnone]
      rw [hread]

/-- A token that is no marker is read where none is awaited too. -/
theorem nextToken_unmarked {markers : Bool} {s gap rest : Text} {t : Token}
    (h : nextToken markers s = .found gap t rest) (hopen : t ≠ .openMarker)
    (hclose : t ≠ .closeMarker) :
    nextToken false s = .found gap t rest ∧ (markers = true → ¬ MarkerAhead s) := by
  cases markers with
  | false => exact ⟨h, by simp⟩
  | true =>
    have hnot : ¬ MarkerAhead s := by
      intro hahead
      unfold nextToken at h
      split at h
      · cases h
      · rename_i c r hdrop
        rw [MarkerAhead, hdrop] at hahead
        rcases hmarker : Token.readMarker? (c :: r) with _ | ⟨m, r'⟩
        · exact readMarker?_eq_none_iff.1 hmarker hahead
        · simp only [Token.read?, if_true, hmarker, NextToken.found.injEq] at h
          obtain ⟨-, rfl, -⟩ := h
          unfold Token.readMarker? at hmarker
          split at hmarker
          · cases hmarker
            exact hopen rfl
          · cases hmarker
            exact hclose rfl
          · cases hmarker
    exact ⟨(nextToken_of_not_markerAhead hnot true).symm.trans h, fun _ => hnot⟩

/-! ## Behind a closing brace -/

section

variable {z : Nat}

theorem flows_cons {m n : Mode} {d e : Nat} {c : Char} (h : flowStep m d c = some (n, e))
    (s : Text) : Flows m d z (c :: s) ↔ Flows n e z s := by
  simp only [Flows, flow_cons, h, Option.bind_some]

theorem flows_append {m n : Mode} {d e : Nat} {a : Text} (h : flow m d a = some (n, e)) (b : Text) :
    Flows m d z (a ++ b) ↔ Flows n e z b := by
  simp only [Flows, flow_append_of_flow h]

/-- A block is read alike in two modes in which a token may end, when its first character is. -/
theorem flows_iff_of_step {m n : Mode} {d : Nat} {s : Text} (hm : m.rests = true)
    (hn : n.rests = true) (hstep : ∀ c ∈ s.head?, m.step c = n.step c) :
    Flows m d z s ↔ Flows n d z s := by
  cases s with
  | nil =>
    simp only [Flows, flow_nil, Option.some.injEq, Prod.mk.injEq]
    constructor
    · rintro ⟨-, ⟨-, hd⟩, -⟩
      exact ⟨n, ⟨rfl, hd⟩, hn⟩
    · rintro ⟨-, ⟨-, hd⟩, -⟩
      exact ⟨m, ⟨rfl, hd⟩, hm⟩
  | cons c s =>
    have hflow : flowStep m d c = flowStep n d c := by
      simp only [flowStep, hm, hn, hstep c rfl]
    simp only [Flows, flow_cons, hflow]

/-- A piece of a marker is read as a piece of a chunk, unless the rest of the marker follows. -/
theorem flows_partial {m k : Mode} {d : Nat} {x : Char} {l s : Text} (hm : m.rests = true)
    (hx : step .word x = some .word) (hother : ∀ c, c ≠ x → m.step c = goOn c)
    (hnext : m.step x = some k) (hk : ∀ s, ¬ l <+: s → (Flows k d z s ↔ Flows .word d z s))
    (h : ¬ x :: l <+: s) : Flows m d z s ↔ Flows .word d z s := by
  by_cases hhead : s.head? = some x
  · obtain ⟨v, rfl⟩ : ∃ v, s = x :: v := by
      cases s with
      | nil => cases hhead
      | cons c v =>
        cases hhead
        exact ⟨v, rfl⟩
    rw [flows_cons (flowStep_of_step hnext d), flows_cons (flowStep_of_step hx d)]
    refine hk v fun hl => h ?_
    exact (List.prefix_cons_inj x).2 hl
  · -- another character ends what might have become a marker
    refine flows_iff_of_step hm rfl fun c hc => hother c ?_
    rintro rfl
    exact hhead hc

/-- The last character of a marker is refused, every other one is read as in a chunk. -/
theorem flows_last {m : Mode} {d : Nat} {x : Char} {s : Text} (hm : m.rests = true)
    (hother : ∀ c, c ≠ x → m.step c = goOn c) (h : ¬ [x] <+: s) :
    Flows m d z s ↔ Flows .word d z s := by
  refine flows_iff_of_step hm rfl fun c hc => hother c ?_
  rintro rfl
  refine h ?_
  cases s with
  | nil => cases hc
  | cons d s =>
    cases hc
    exact ⟨s, rfl⟩

theorem flows_lt {d : Nat} {s : Text} (h : ¬ ['!', '-', '-'] <+: s) :
    Flows .lt d z s ↔ Flows .word d z s := by
  have hlast : ∀ s, ¬ ['-'] <+: s → (Flows .ltBangDash d z s ↔ Flows .word d z s) :=
    fun s hs => flows_last rfl (fun c hc => by simp [step, hc]) hs
  have hbang : ∀ s, ¬ ['-', '-'] <+: s → (Flows .ltBang d z s ↔ Flows .word d z s) :=
    fun s hs => flows_partial rfl rfl (fun c hc => by simp [step, hc]) rfl hlast hs
  exact flows_partial rfl rfl (fun c hc => by simp [step, hc]) rfl hbang h

theorem flows_dash {d : Nat} {s : Text} (h : ¬ ['-', '>'] <+: s) :
    Flows .dash d z s ↔ Flows .word d z s := by
  have hlast : ∀ s, ¬ ['>'] <+: s → (Flows .dashDash d z s ↔ Flows .word d z s) :=
    fun s hs => flows_last rfl (fun c hc => by simp [step, hc]) hs
  exact flows_partial rfl rfl (fun c hc => by simp [step, hc]) rfl hlast h

theorem not_flows_closed_of_markerFirst {d : Nat} {s : Text} (h : MarkerFirst s) :
    ¬ Flows .closed d z s := by
  rintro ⟨n, hn, -⟩
  rcases h with ⟨r, rfl⟩ | ⟨r, rfl⟩
  · cases hn
  · cases hn

/-- Right behind the brace that closes an inner block, a block goes on as it might between any two
tokens, but not with a marker. -/
theorem flows_closed_iff {d : Nat} {s : Text} :
    Flows .closed d z s ↔ ¬ MarkerAhead s ∧ Flows .fresh d z s := by
  obtain ⟨gap, v, rfl, hgap, hv⟩ := Text.exists_blanks s
  rw [markerAhead_blanks_append hgap, markerAhead_iff_markerFirst hv]
  -- blanks leave either mode as it is
  have hskip : ∀ {m : Mode}, (∀ c, Text.isBlank c = true → m.step c = some m) →
      (Flows m d z (gap ++ v) ↔ Flows m d z v) := by
    intro m hm
    clear hv
    induction gap with
    | nil => rfl
    | cons c gap ih =>
      obtain ⟨hc, hgap⟩ := List.forall_mem_cons.1 hgap
      rw [List.cons_append, flows_cons (flowStep_of_step (hm c hc) d), ih hgap]
  rw [hskip (fun c hc => by simp [step, hc]), hskip (fun c hc => by simp [step, begin, hc])]
  constructor
  · intro h
    exact ⟨fun hmark => not_flows_closed_of_markerFirst hmark h, h.of_le .closed⟩
  · rintro ⟨hmark, h⟩
    -- behind the blanks only a first character of a marker makes a difference
    rw [MarkerFirst, not_or] at hmark
    cases v with
    | nil => exact (flows_iff_of_step rfl rfl (by simp)).2 h
    | cons c v =>
      by_cases hlt : c = '<'
      · subst hlt
        have hrest : ¬ ['!', '-', '-'] <+: v := fun hl => hmark.1 ((List.prefix_cons_inj '<').2 hl)
        have hword : Flows .word d z v := h
        exact (flows_lt hrest).2 hword
      · by_cases hdash : c = '-'
        · subst hdash
          have hrest : ¬ ['-', '>'] <+: v := fun hl => hmark.2 ((List.prefix_cons_inj '-').2 hl)
          have hword : Flows .word d z v := h
          exact (flows_dash hrest).2 hword
        · refine (flows_iff_of_step rfl rfl ?_).2 h
          simp [step, hv c rfl, hlt, hdash]

/-! ## Blocks -/

/-- A text of a block is read as a head up to its first character that structures the stylesheet. -/
theorem flow_split {m : Mode} {d : Nat} {s : Text} {st : Mode × Nat} (h : flow m d s = some st) :
    (∃ n, m.run s = some n ∧ st = (n, d)) ∨
      ∃ u x v k, s = u ++ x :: v ∧ isStructural x = true ∧ m.run u = some k ∧ k.rests = true ∧
        (flowStep k d x).bind (fun st' => flow st'.1 st'.2 v) = some st := by
  induction s generalizing m with
  | nil =>
    cases h
    exact .inl ⟨m, rfl, rfl⟩
  | cons c s ih =>
    by_cases hs : (m.rests && isStructural c) = true
    · rw [Bool.and_eq_true] at hs
      exact .inr ⟨[], c, s, m, rfl, hs.2, rfl, hs.1, h⟩
    · have hstep : flowStep m d c = (m.step c).map fun n => (n, d) := by
        unfold flowStep
        rw [if_neg hs]
      rw [flow_cons, hstep] at h
      cases hc : m.step c with
      | none =>
        rw [hc] at h
        cases h
      | some n =>
        rw [hc] at h
        rcases ih h with ⟨k, hk, rfl⟩ | ⟨u, x, v, k, rfl, hx, hk, hrest, hflow⟩
        · exact .inl ⟨k, by rw [run_cons, hc, Option.bind_some, hk], rfl⟩
        · exact .inr ⟨c :: u, x, v, k, rfl, hx, by rw [run_cons, hc, Option.bind_some, hk], hrest,
            hflow⟩

/-- Where a token may end, a character that structures the stylesheet does the same in any mode. -/
theorem flowStep_structural {m n : Mode} {x : Char} (hm : m.rests = true) (hn : n.rests = true)
    (hx : isStructural x = true) (d : Nat) : flowStep m d x = flowStep n d x := by
  simp only [flowStep, hm, hn, hx, Bool.true_and, if_true]

theorem flows_of_flat {m n : Mode} {d e : Nat} {u v : Text} {x : Char} (hu : Flat m u)
    (hx : isStructural x = true) (hstep : flowStep .fresh d x = some (n, e)) :
    Flows m d z (u ++ x :: v) ↔ Flows n e z v := by
  obtain ⟨k, hk, hrest⟩ := hu
  rw [flows_append (flow_of_run hk d)]
  exact flows_cons ((flowStep_structural hrest rfl hx d).trans hstep) v

theorem Flows.split {m : Mode} {d : Nat} {s : Text} (h : Flows m d z s) :
    (Flat m s ∧ d = z) ∨
      ∃ u x v n e, s = u ++ x :: v ∧ isStructural x = true ∧ Flat m u ∧
        flowStep .fresh d x = some (n, e) ∧ Flows n e z v := by
  obtain ⟨n, hn, hrest⟩ := h
  rcases flow_split hn with ⟨k, hk, heq⟩ | ⟨u, x, v, k, rfl, hx, hk, hkrest, hflow⟩
  · cases heq
    exact .inl ⟨⟨n, hk, hrest⟩, rfl⟩
  · obtain ⟨⟨k', e⟩, hstep, hv⟩ := Option.bind_eq_some_iff.1 hflow
    refine .inr ⟨u, x, v, k', e, rfl, hx, ⟨k, hk, hkrest⟩, ?_, ⟨n, hv, hrest⟩⟩
    exact (flowStep_structural rfl hkrest hx d).trans hstep

end

/-! ## Markers that interrupt a block -/

/-- A marker stands right behind a brace that closes an inner block. -/
def Interrupted (d : Nat) (s : Text) : Prop :=
  ∃ a b e, s = a ++ '}' :: b ∧ Flows .fresh d (e + 1) a ∧ MarkerAhead b

/-- What flows to a closing brace flows on behind it, if anything does. -/
theorem flows_brace {d e z : Nat} {a : Text} (ha : Flows .fresh d (e + 1) a) (b : Text) :
    Flows .fresh d z (a ++ '}' :: b) ↔ Flows .closed e z b := by
  obtain ⟨n, hn, hrest⟩ := ha
  rw [flows_append hn, flows_cons (flowStep_close hrest e)]

theorem Interrupted.not_flows {d z : Nat} {s : Text} (h : Interrupted d s) :
    ¬ Flows .fresh d z s := by
  obtain ⟨a, b, e, rfl, ha, hb⟩ := h
  rw [flows_brace ha, flows_closed_iff]
  exact fun hflow => hflow.1 hb

theorem Interrupted.append_right {d : Nat} {s : Text} (h : Interrupted d s) (r : Text) :
    Interrupted d (s ++ r) := by
  obtain ⟨a, b, e, rfl, ha, hb⟩ := h
  exact ⟨a, b ++ r, e, by simp, ha, hb.append_right r⟩

theorem Interrupted.append_left {d e : Nat} {a s : Text} (ha : flow .fresh d a = some (.fresh, e))
    (h : Interrupted e s) : Interrupted d (a ++ s) := by
  obtain ⟨u, b, z, rfl, hu, hb⟩ := h
  exact ⟨a ++ u, b, z, by simp, (flows_append ha u).2 hu, hb⟩

/-- Behind a closing brace a block is interrupted at once or further on. -/
theorem Interrupted.of_closed {d e : Nat} {a s : Text} (ha : Flows .fresh d (e + 1) a)
    (h : MarkerAhead s ∨ Interrupted e s) : Interrupted d (a ++ '}' :: s) := by
  by_cases hs : MarkerAhead s
  · exact ⟨a, s, e, rfl, ha, hs⟩
  · obtain ⟨u, b, z, rfl, hu, hb⟩ := h.resolve_left hs
    rw [markerAhead_append_iff rfl] at hs
    have hclosed : Flows .closed e (z + 1) u := flows_closed_iff.2 ⟨hs, hu⟩
    exact ⟨a ++ '}' :: u, b, z, by simp, (flows_brace ha u).2 hclosed, hb⟩

theorem Interrupted.inside {d : Nat} {s : Text} (h : Interrupted 0 s) : Interrupted d s := by
  obtain ⟨a, b, e, rfl, ⟨n, hn, hrest⟩, hb⟩ := h
  have hadd := flow_add hn d
  rw [Nat.zero_add, Nat.add_right_comm] at hadd
  exact ⟨a, b, e + d, rfl, ⟨n, hadd, hrest⟩, hb⟩

namespace Statement

variable {depth : Nat} {closed : Bool} {last s gap rest : Text}

theorem readBody_end (h : nextToken closed s = .found gap .closeBrace rest) :
    readBody 0 closed last s = .ok (gap, rest) := by
  rw [readBody]
  split <;> rename_i heq <;> rw [h] at heq <;> cases heq
  · rfl
  · rename_i hclose _ _ _
    exact absurd rfl hclose

theorem readBody_close (h : nextToken closed s = .found gap .closeBrace rest) :
    readBody (depth + 1) closed last s =
      Text.prepend (gap ++ ['}']) (readBody depth true ('}' :: rest) rest) := by
  rw [readBody]
  split <;> rename_i heq <;> rw [h] at heq <;> cases heq
  · rfl
  · rename_i hclose _ _ _
    exact absurd rfl hclose

theorem readBody_open (h : nextToken closed s = .found gap .openBrace rest) :
    readBody depth closed last s =
      Text.prepend (gap ++ ['{']) (readBody (depth + 1) false ('{' :: rest) rest) := by
  rw [readBody]
  split <;> rename_i heq <;> rw [h] at heq <;> cases heq
  · rfl
  · rename_i hopen _ _
    exact absurd rfl hopen

theorem readBody_token {t : Token} (h : nextToken closed s = .found gap t rest)
    (ht : t.isPlain = true ∨ t = .semicolon) :
    readBody depth closed last s =
      Text.prepend (gap ++ t.text) (readBody depth false (t.text ++ rest) rest) := by
  rw [readBody]
  split <;> rename_i heq <;> rw [h] at heq <;> cases heq
  · simp [Token.isPlain] at ht
  · simp [Token.isPlain] at ht
  · simp [Token.isPlain] at ht
  · simp [Token.isPlain] at ht
  · rfl

/-- A body that is read can be read character by character, and does not begin with a marker where
one is awaited. -/
theorem readBody_flows {body : Text} (h : readBody depth closed last s = .ok (body, rest)) :
    Flows .fresh depth 0 body ∧ (closed = true → ¬ MarkerAhead s) := by
  fun_induction readBody depth closed last s generalizing body with
  | case1 | case2 | case6 | case7 => simp at h
  | case3 closed last s gap rest' hs =>
    cases h
    have hplain := nextToken_unmarked hs (by decide) (by decide)
    exact ⟨⟨.fresh, flow_of_run (run_blanks (nextToken_gap_blank hs)) 0, rfl⟩, hplain.2⟩
  | case4 closed last s gap rest' hs depth ih =>
    obtain ⟨u, hu, rfl⟩ := Text.prepend_eq_ok_iff.1 h
    have hplain := nextToken_unmarked hs (by decide) (by decide)
    obtain ⟨hflow, hmark⟩ := ih hu
    have hclosed : Flows .closed depth 0 u := by
      refine flows_closed_iff.2 ⟨fun hahead => hmark rfl ?_, hflow⟩
      rw [readBody_append hu, markerAhead_append_iff rfl]
      exact hahead
    have hgap := flow_of_run (run_blanks (nextToken_gap_blank hs)) (depth + 1)
    rw [List.append_assoc, flows_append hgap, List.singleton_append,
      flows_cons (flowStep_close rfl depth)]
    exact ⟨hclosed, hplain.2⟩
  | case5 depth closed last s gap rest' hs ih =>
    obtain ⟨u, hu, rfl⟩ := Text.prepend_eq_ok_iff.1 h
    have hplain := nextToken_unmarked hs (by decide) (by decide)
    have hgap := flow_of_run (run_blanks (nextToken_gap_blank hs)) depth
    rw [List.append_assoc, flows_append hgap, List.singleton_append,
      flows_cons (flowStep_open rfl depth)]
    exact ⟨(ih hu).1, hplain.2⟩
  | case8 depth closed last s gap token rest' hclose hopen hcdo hcdc hs ih =>
    obtain ⟨u, hu, rfl⟩ := Text.prepend_eq_ok_iff.1 h
    have hplain := nextToken_unmarked hs hcdo hcdc
    refine ⟨?_, hplain.2⟩
    by_cases hsemi : token = .semicolon
    · subst hsemi
      have hgap := flow_of_run (run_blanks (nextToken_gap_blank hs)) depth
      rw [List.append_assoc, flows_append hgap]
      exact (flows_cons (flowStep_semicolon rfl depth) u).2 (ih hu).1
    · have ht := nextToken_plain hplain.1 hopen hclose hsemi
      obtain ⟨m, hrun, hm, hbehind⟩ := nextToken_run hplain.1 ht
      have hstep := behind_token (readBody_append hu) hbehind
      rw [flows_append (flow_of_run hrun depth)]
      exact (flows_iff_of_step hm rfl hstep).2 (ih hu).1

/-- A character that structures the stylesheet is read as the modes read it: it leads to the depth
they give, and a marker is refused behind it where they refuse one. -/
theorem readBody_separator {n : Mode} {e : Nat} {x : Char} (hx : isStructural x = true)
    (hstep : flowStep .fresh depth x = some (n, e))
    (h : nextToken closed s = .found gap (Token.separator x) rest) :
    ∃ closed', readBody depth closed last s =
        Text.prepend (gap ++ [x]) (readBody e closed' (x :: rest) rest) ∧
      ∀ v, Flows n e 0 v → Flows .fresh e 0 v ∧ (closed' = true → ¬ MarkerAhead v) := by
  simp only [isStructural, Bool.or_eq_true, beq_iff_eq] at hx
  rcases hx with (rfl | rfl) | rfl
  · cases hstep
    exact ⟨false, readBody_open h, fun v hv => ⟨hv, by simp⟩⟩
  · cases depth with
    | zero => cases hstep
    | succ depth =>
      cases hstep
      refine ⟨true, readBody_close h, fun v hv => ?_⟩
      obtain ⟨hahead, hv⟩ := flows_closed_iff.1 hv
      exact ⟨hv, fun _ => hahead⟩
  · cases hstep
    exact ⟨false, readBody_token h (.inr rfl), fun v hv => ⟨hv, by simp⟩⟩

/-- Where no marker stands ahead, it does not matter whether one would be refused. -/
theorem nextToken_closed {body : Text} (hmark : closed = true → ¬ MarkerAhead body) (r : Text) :
    nextToken closed (body ++ '}' :: r) = nextToken false (body ++ '}' :: r) := by
  cases closed with
  | false => rfl
  | true =>
    refine nextToken_of_not_markerAhead (fun hahead => hmark rfl ?_) true
    exact (markerAhead_append_iff rfl body r).1 hahead

/-- A text that can be read as a block is read as one, token by token. Induction on its length. -/
theorem readBody_of_flows {body : Text} (h : Flows .fresh depth 0 body)
    (hmark : closed = true → ¬ MarkerAhead body) :
    readBody depth closed last (body ++ '}' :: rest) = .ok (body, rest) := by
  induction hlen : body.length using Nat.strong_induction_on
    generalizing depth closed last body with
  | _ k ih =>
    have hskip := nextToken_closed hmark rest
    rcases h.split with ⟨hflat, rfl⟩ | ⟨u, x, v, n, e, rfl, hx, hu, hstep, hv⟩
    · -- nothing but the closing brace structures the text
      have hx : isStructural '}' = true := rfl
      rcases nextToken_of_flat hx rest hflat with ht | ⟨gap, t, w, hplain, rfl, hw, ht⟩
      · exact readBody_end (hskip.trans ht)
      · have hlt : w.length < k := by
          have := nextToken_length_lt ht
          simp only [List.length_append] at this hlen
          omega
        have hw' : Flows .fresh 0 0 w := by
          obtain ⟨n, hn, hrest⟩ := hw
          exact ⟨n, flow_of_run hn 0, hrest⟩
        rw [readBody_token (hskip.trans ht) (.inl hplain), ih w.length hlt hw' (by simp) rfl]
        simp [Text.prepend]
    · rw [List.append_assoc, List.cons_append] at hskip ⊢
      rcases nextToken_of_flat hx (v ++ '}' :: rest) hu with ht | ⟨gap, t, w, hplain, rfl, hw, ht⟩
      · -- nothing but blanks stands before the character
        have hlt : v.length < k := by
          rw [← hlen, List.length_append, List.length_cons]
          omega
        obtain ⟨closed', hread, hbehind⟩ :=
          @readBody_separator depth closed last _ _ _ _ _ _ hx hstep (hskip.trans ht)
        obtain ⟨hv', hmark'⟩ := hbehind v hv
        rw [hread, ih v.length hlt hv' hmark' rfl]
        simp [Text.prepend]
      · have hlt : (w ++ x :: v).length < k := by
          have := nextToken_length_lt ht
          simp only [List.length_append, List.length_cons] at this hlen ⊢
          omega
        have hw' : Flows .fresh depth 0 (w ++ x :: v) := (flows_of_flat hw hx hstep).2 hv
        have hbody := fun last => @ih _ hlt depth false last (w ++ x :: v) hw' (by simp) rfl
        rw [List.append_assoc, List.cons_append] at hbody
        rw [readBody_token (hskip.trans ht) (.inl hplain), hbody]
        simp [Text.prepend]

/-- A body is what can be read character by character, up to the brace that closes the block. -/
theorem readBody_eq_ok_iff {body : Text} :
    readBody depth closed last s = .ok (body, rest) ↔
      s = body ++ '}' :: rest ∧ Flows .fresh depth 0 body ∧
        (closed = true → ¬ MarkerAhead body) := by
  constructor
  · intro h
    have happ := readBody_append h
    obtain ⟨hflow, hmark⟩ := readBody_flows h
    refine ⟨happ, hflow, fun hc hahead => hmark hc ?_⟩
    rw [happ, markerAhead_append_iff rfl]
    exact hahead
  · rintro ⟨rfl, h, hmark⟩
    exact readBody_of_flows h hmark

/-- A block that is interrupted is not read, whatever brace is taken for its end. -/
theorem readBody_of_interrupted {body : Text} (h : Interrupted 0 body) (found : Text × Text) :
    readBody 0 false last (body ++ '}' :: rest) ≠ .ok found := by
  intro hread
  obtain ⟨body', rest'⟩ := found
  obtain ⟨heq, hflow, -⟩ := readBody_eq_ok_iff.1 hread
  obtain ⟨a, b, e, rfl, ha, hb⟩ := h
  have hne : body' ≠ a := by
    rintro rfl
    obtain ⟨n, hn, -⟩ := hflow
    obtain ⟨k, hk, -⟩ := ha
    cases hn.symm.trans hk
  rw [List.append_assoc, List.cons_append] at heq
  rcases List.append_eq_append_iff.1 heq with ⟨v, rfl, hv⟩ | ⟨v, rfl, hv⟩
  · -- the block goes on behind the brace that the marker follows
    cases v with
    | nil => exact hne (by simp)
    | cons c v =>
      rw [List.cons_append, List.cons.injEq] at hv
      obtain ⟨rfl, hv⟩ := hv
      have hahead := hb.append_right ('}' :: rest)
      rw [hv, markerAhead_append_iff rfl] at hahead
      exact (flows_closed_iff.1 ((flows_brace ha v).1 hflow)).1 hahead
  · -- the block ends before that brace
    cases v with
    | nil => exact hne (by simp)
    | cons c v =>
      rw [List.cons_append, List.cons.injEq] at hv
      obtain ⟨rfl, -⟩ := hv
      obtain ⟨n, hn, hrest⟩ := hflow
      obtain ⟨k, hk, -⟩ := (flows_append hn ('}' :: v)).1 ha
      rw [flow_cons, flowStep_close_zero hrest] at hk
      cases hk

end Statement

end StylePrune
