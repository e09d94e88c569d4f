import Mathlib.Logic.Relation
import Std.Data.HashSet.Lemmas
import StylePrune.Pattern

/-!
# Matches in order of preference

A pattern that remembers no group goes over a text, and what it goes over is told part by part
(`Pattern.Spans`). Which of its matches is preferred is another question: a repetition searches the
places that its body leads to, in depth, and visits each of them once.

* **`Pattern.Spans.star`** — a repetition goes over texts of its body, one behind the other.
* **`Pattern.exists_firstEnd?_star`** — a repetition prefers the place that the preferred match of
  its body leads to, taken again and again until there is none.
-/

namespace StylePrune.Pattern

/-! ## Moving forward -/

/-- The place behind a text that stands at this one, with `rest` behind it. -/
def Place.past (p : Place) (t rest : Text) : Place :=
  { p with before := t.reverse ++ p.before, rest := rest, offset := p.offset + t.length }

/-- The size of the text is told right. -/
def Place.Sound (p : Place) : Prop := p.offset + p.rest.length = p.size

namespace Place

variable {p : Place} {t u r s : Text}

@[simp] theorem past_rest : (p.past t r).rest = r := rfl

theorem past_past : (p.past t s).past u r = p.past (t ++ u) r := by
  simp [past, Nat.add_assoc]

theorem past_nil : p.past [] p.rest = p := by
  simp [past]

theorem sound_start (s : Text) : (start s).Sound := by
  simp [Sound, start]

theorem Sound.past (h : p.Sound) (hrest : p.rest = t ++ r) : (p.past t r).Sound := by
  simp only [Sound, hrest, List.length_append] at h
  simp only [Sound, Place.past]
  omega

end Place

/-! ## Searching -/

section

variable {next : Place → List Place}

/-- One place leads to another by a step of the search. -/
def Steps (next : Place → List Place) : Place → Place → Prop :=
  Relation.ReflTransGen fun a b => b ∈ next a

/-- The place that a visit is about. -/
def Visit.place : Visit → Place
  | .enter p | .leave p => p

/-- What a visit adds to the search is reached from the place that is visited. -/
theorem exists_visit_of_added {p : Place} {todo : List Visit} {v : Visit}
    (hv : v ∈ (next p).map .enter ++ .leave p :: todo) :
    ∃ w ∈ Visit.enter p :: todo, Steps next w.place v.place := by
  rcases List.mem_append.1 hv with hv | hv
  · obtain ⟨b, hb, rfl⟩ := List.mem_map.1 hv
    exact ⟨_, List.mem_cons_self, .single hb⟩
  · rcases List.mem_cons.1 hv with rfl | hv
    · exact ⟨_, List.mem_cons_self, .refl⟩
    · exact ⟨v, List.mem_cons_of_mem _ hv, .refl⟩

/-- A search only adds to what has been noted, and only places that it can step to. -/
theorem exists_visit (fresh : Nat) (seen : Std.HashSet Nat) (todo : List Visit)
    (noted : List Place) :
    ∃ found, visit next fresh seen todo noted = found ++ noted ∧
      ∀ q ∈ found, ∃ v ∈ todo, Steps next v.place q := by
  fun_induction visit next fresh seen todo noted with
  | case1 => exact ⟨[], rfl, by simp⟩
  | case2 fresh seen p todo noted ih =>
    obtain ⟨found, hfound, hsteps⟩ := ih
    refine ⟨found ++ [p], by simp [hfound], fun q hq => ?_⟩
    rcases List.mem_append.1 hq with hq | hq
    · obtain ⟨v, hv, hvq⟩ := hsteps q hq
      exact ⟨v, List.mem_cons_of_mem _ hv, hvq⟩
    · obtain rfl := List.mem_singleton.1 hq
      exact ⟨_, List.mem_cons_self, .refl⟩
  | case3 seen noted p todo ih | case4 seen noted fresh p todo _ ih =>
    obtain ⟨found, hfound, hsteps⟩ := ih
    refine ⟨found, hfound, fun q hq => ?_⟩
    obtain ⟨v, hv, hvq⟩ := hsteps q hq
    exact ⟨v, List.mem_cons_of_mem _ hv, hvq⟩
  | case5 seen noted fresh p todo _ ih =>
    obtain ⟨found, hfound, hsteps⟩ := ih
    refine ⟨found, hfound, fun q hq => ?_⟩
    obtain ⟨v, hv, hvq⟩ := hsteps q hq
    obtain ⟨w, hw, hwv⟩ := exists_visit_of_added hv
    exact ⟨w, hw, hwv.trans hvq⟩

theorem steps_of_mem_closure {p q : Place} (hq : q ∈ closure next p) : Steps next p q := by
  obtain ⟨found, hfound, hsteps⟩ := @exists_visit next (p.size - p.offset + 1) ∅ [.enter p] []
  rw [closure, hfound, List.append_nil, List.mem_reverse] at hq
  obtain ⟨v, hv, hvq⟩ := hsteps q hq
  obtain rfl := List.mem_singleton.1 hv
  exact hvq

/-- Every step goes over some text. -/
def Advances (next : Place → List Place) : Prop :=
  ∀ a, ∀ b ∈ next a, ∃ t r, t ≠ [] ∧ a.rest = t ++ r ∧ b = a.past t r

/-- The preferred step is taken until there is none. -/
def Prefers (next : Place → List Place) (p last : Place) : Prop :=
  Relation.ReflTransGen (fun a b => (next a).head? = some b) p last ∧ next last = []

/-- The place that is noted first when a place is entered is the one that preferred steps lead to.
Induction on the text behind the place: on the way no place has been seen before. -/
theorem exists_visit_enter (hnext : Advances next) {fresh : Nat} {seen : Std.HashSet Nat}
    {p : Place} (todo : List Visit) (noted : List Place) (hfresh : p.rest.length < fresh)
    (hseen : ∀ k ∈ seen, k < p.offset) :
    ∃ last found, visit next fresh seen (.enter p :: todo) noted = found ++ last :: noted ∧
      Prefers next p last := by
  induction hn : p.rest.length using Nat.strongRecOn
    generalizing p fresh seen todo noted with
  | ind n ih =>
    obtain ⟨k, rfl⟩ := Nat.exists_eq_succ_of_ne_zero (Nat.ne_of_gt (Nat.zero_lt_of_lt hfresh))
    have hnew : seen.contains p.offset = false := by
      rw [← Bool.not_eq_true, Std.HashSet.contains_iff_mem]
      exact fun hmem => Nat.lt_irrefl _ (hseen _ hmem)
    rw [visit, if_neg (by simp [hnew])]
    cases hp : next p with
    | nil =>
      rw [List.map_nil, List.nil_append, visit]
      obtain ⟨found, hfound, -⟩ := exists_visit k (seen.insert p.offset) todo (p :: noted)
      exact ⟨p, found, hfound, .refl, hp⟩
    | cons b bs =>
      obtain ⟨t, r, ht, hrest, rfl⟩ := hnext p b (by simp [hp])
      have hpos := List.length_pos_iff.2 ht
      have hlength : p.rest.length = t.length + r.length := by rw [hrest, List.length_append]
      have hseen' : ∀ j ∈ seen.insert p.offset, j < (p.past t r).offset := by
        intro j hj
        simp only [Place.past]
        rcases Std.HashSet.mem_insert.1 hj with hj | hj
        · have := beq_iff_eq.1 hj
          omega
        · have := hseen j hj
          omega
      have hfresh' : (p.past t r).rest.length < k := by
        rw [Place.past_rest]
        omega
      rw [List.map_cons, List.cons_append]
      obtain ⟨last, found, hfound, hlast⟩ := ih r.length (by omega)
        (bs.map .enter ++ .leave p :: todo) noted hfresh' hseen' rfl
      exact ⟨last, found, hfound, .head (by rw [hp]; rfl) hlast.1, hlast.2⟩

theorem exists_head?_closure (hnext : Advances next) {p : Place} (hp : p.Sound) :
    ∃ last, (closure next p).head? = some last ∧ Prefers next p last := by
  have hfresh : p.rest.length < p.size - p.offset + 1 := by
    simp only [Place.Sound] at hp
    omega
  have hseen : ∀ k ∈ (∅ : Std.HashSet Nat), k < p.offset := by simp
  obtain ⟨last, found, hfound, hlast⟩ := exists_visit_enter hnext [] [] hfresh hseen
  exact ⟨last, by simp [closure, hfound], hlast⟩

end

/-! ## The texts of a pattern -/

/-- Every match goes over a text of this kind, and remembers nothing. -/
def Spans (pattern : Pattern) (language : Text → Prop) : Prop :=
  ∀ p, ∀ q ∈ pattern.ends p, ∃ t r, language t ∧ p.rest = t ++ r ∧ q = p.past t r

section

variable {first second body : Pattern} {isMember : Char → Bool} {A B L : Text → Prop}

theorem ends_one (isMember : Char → Bool) (p : Place) :
    (one isMember).ends p =
      match p.rest with
      | [] => []
      | c :: rest => if isMember c then [p.past [c] rest] else [] := rfl

theorem Spans.one (h : ∀ c, isMember c = true → L [c]) : (one isMember).Spans L := by
  intro p q hq
  rw [ends_one] at hq
  split at hq
  · cases hq
  · rename_i c rest hrest
    split at hq
    · rename_i hc
      exact ⟨[c], rest, h c hc, hrest, List.mem_singleton.1 hq⟩
    · cases hq

theorem Spans.char {c : Char} (h : L [c]) : (Pattern.char c).Spans L := by
  refine .one fun d hd => ?_
  rwa [beq_iff_eq.1 hd]

theorem Spans.mono (hfirst : first.Spans A) (h : ∀ t, A t → L t) : first.Spans L := by
  intro p q hq
  obtain ⟨t, r, ht, hrest⟩ := hfirst p q hq
  exact ⟨t, r, h t ht, hrest⟩

theorem Spans.nothing (h : L []) : nothing.Spans L := by
  intro p q hq
  exact ⟨[], p.rest, h, rfl, (List.mem_singleton.1 hq).trans Place.past_nil.symm⟩

theorem Spans.notAhead (body : Pattern) (h : L []) : (notAhead body).Spans L := by
  intro p q hq
  refine ⟨[], p.rest, h, rfl, ?_⟩
  rw [ends] at hq
  split at hq
  · exact (List.mem_singleton.1 hq).trans Place.past_nil.symm
  · cases hq

theorem Spans.alt (hfirst : first.Spans L) (hsecond : second.Spans L) :
    (alt first second).Spans L := fun p q hq =>
  (List.mem_append.1 hq).elim (hfirst p q) (hsecond p q)

theorem Spans.opt (hbody : body.Spans L) (h : L []) : (opt body).Spans L :=
  .alt hbody (.nothing h)

theorem spans_opt_one :
    (opt (one isMember)).Spans fun t =>
      ∃ o : Option Char, t = o.toList ∧ ∀ c ∈ o, isMember c = true :=
  .opt (.one fun c hc => ⟨some c, rfl, by simpa using hc⟩) ⟨none, rfl, by simp⟩

theorem Spans.seq (hfirst : first.Spans A) (hsecond : second.Spans B)
    (h : ∀ t u, A t → B u → L (t ++ u)) : (seq first second).Spans L := by
  intro p q hq
  obtain ⟨m, hm, hq⟩ := List.mem_flatMap.1 hq
  obtain ⟨t, r, ht, hrest, rfl⟩ := hfirst p m hm
  obtain ⟨u, r', hu, hr, rfl⟩ := hsecond _ q hq
  rw [Place.past_rest] at hr
  exact ⟨t ++ u, r', h t u ht hu, by rw [hrest, hr, List.append_assoc], Place.past_past⟩

/-- A repetition goes over texts of its body, one behind the other. -/
theorem Spans.star (hbody : body.Spans A) (hnil : L []) (h : ∀ t u, A t → L u → L (t ++ u)) :
    (star body).Spans L := by
  intro p q hq
  have hsteps := steps_of_mem_closure hq
  clear hq
  induction hsteps using Relation.ReflTransGen.head_induction_on with
  | refl => exact ⟨[], q.rest, hnil, rfl, Place.past_nil.symm⟩
  | @head a b hab _ ih =>
    obtain ⟨t, r, ht, hrest, rfl⟩ := hbody a b hab
    obtain ⟨u, r', hu, hr, rfl⟩ := ih
    rw [Place.past_rest] at hr
    exact ⟨t ++ u, r', h t u ht hu, by rw [hrest, hr, List.append_assoc], Place.past_past⟩

theorem Spans.sound (h : first.Spans L) {p q : Place} (hp : p.Sound) (hq : q ∈ first.ends p) :
    q.Sound := by
  obtain ⟨t, r, -, hrest, rfl⟩ := h p q hq
  exact hp.past hrest

end

/-! ## The preferred match -/

section

variable {first second body : Pattern} {A : Text → Prop} {p q stop : Place}

theorem firstEnd?_eq_some_cons :
    first.firstEnd? p = some q ↔ ∃ others, first.ends p = q :: others := by
  rw [firstEnd?_eq_head?, List.head?_eq_some_iff]

theorem mem_ends_of_firstEnd? (h : first.firstEnd? p = some q) : q ∈ first.ends p := by
  obtain ⟨others, hends⟩ := firstEnd?_eq_some_cons.1 h
  rw [hends]
  exact List.mem_cons_self

theorem firstEnd?_eq_none_iff : first.firstEnd? p = none ↔ first.ends p = [] := by
  rw [firstEnd?_eq_head?, List.head?_eq_none_iff]

theorem firstEnd?_seq_eq_some (hfirst : first.firstEnd? p = some q)
    (hsecond : second.firstEnd? q = some stop) : (seq first second).firstEnd? p = some stop := by
  obtain ⟨others, hends⟩ := firstEnd?_eq_some_cons.1 hfirst
  rw [firstEnd?, hends, List.findSome?_cons_of_isSome (by simp [hsecond]), hsecond]

theorem firstEnd?_seq_eq_none_iff :
    (seq first second).firstEnd? p = none ↔ ∀ q ∈ first.ends p, second.firstEnd? q = none := by
  rw [firstEnd?, List.findSome?_eq_none_iff]

theorem firstEnd?_seq_eq_none (hfirst : first.firstEnd? p = none) :
    (seq first second).firstEnd? p = none := by
  rw [firstEnd?, firstEnd?_eq_none_iff.1 hfirst, List.findSome?_nil]

/-- A repetition takes the preferred match of its body until there is none. -/
theorem exists_firstEnd?_star (hbody : body.Spans A) (hne : ∀ t, A t → t ≠ []) (hp : p.Sound) :
    ∃ last, (star body).firstEnd? p = some last ∧ Prefers body.ends p last := by
  have hadvances : Advances body.ends := by
    intro a b hb
    obtain ⟨t, r, ht, hrest, heq⟩ := hbody a b hb
    exact ⟨t, r, hne t ht, hrest, heq⟩
  exact exists_head?_closure hadvances hp

theorem Prefers.of_firstEnd? {last : Place} (h : Prefers body.ends p last)
    (hfirst : body.firstEnd? p = some q) : Prefers body.ends q last := by
  rw [firstEnd?_eq_head?] at hfirst
  obtain ⟨hsteps, hlast⟩ := h
  rcases hsteps.cases_head with rfl | ⟨m, hm, hsteps⟩
  · simp [hlast] at hfirst
  · rw [hm] at hfirst
    cases hfirst
    exact ⟨hsteps, hlast⟩

theorem Prefers.eq_of_firstEnd? {last : Place} (h : Prefers body.ends p last)
    (hnone : body.firstEnd? p = none) : last = p := by
  rw [firstEnd?_eq_head?] at hnone
  rcases h.1.cases_head with rfl | ⟨m, hm, -⟩
  · rfl
  · cases hm.symm.trans hnone

theorem firstEnd?_one (isMember : Char → Bool) (p : Place) :
    (one isMember).firstEnd? p =
      match p.rest with
      | [] => none
      | c :: rest => if isMember c then some (p.past [c] rest) else none := by
  rw [firstEnd?_eq_head?, ends_one]
  cases p.rest with
  | nil => rfl
  | cons c rest => exact apply_ite List.head? _ _ _

theorem ends_seq_one (isMember : Char → Bool) (second : Pattern) (p : Place) :
    (seq (one isMember) second).ends p =
      match p.rest with
      | [] => []
      | c :: rest => if isMember c then second.ends (p.past [c] rest) else [] := by
  rw [ends, ends_one]
  cases p.rest with
  | nil => rfl
  | cons c rest => by_cases hc : isMember c = true <;> simp [hc]

theorem firstEnd?_seq_one (isMember : Char → Bool) (second : Pattern) (p : Place) :
    (seq (one isMember) second).firstEnd? p =
      match p.rest with
      | [] => none
      | c :: rest => if isMember c then second.firstEnd? (p.past [c] rest) else none := by
  rw [firstEnd?_eq_head?, ends_seq_one]
  cases p.rest with
  | nil => rfl
  | cons c rest =>
    simp only [firstEnd?_eq_head?]
    exact apply_ite List.head? _ _ _

theorem ends_notAhead_one (isMember : Char → Bool) (p : Place) :
    (notAhead (one isMember)).ends p = if p.rest.head?.any isMember then [] else [p] := by
  rw [ends, ends_one]
  cases p.rest with
  | nil => rfl
  | cons c rest => by_cases hc : isMember c = true <;> simp [hc]

theorem firstEnd?_opt (body : Pattern) (p : Place) :
    (opt body).firstEnd? p = some ((body.firstEnd? p).getD p) := by
  rw [opt, firstEnd?]
  cases body.firstEnd? p <;> rfl

/-- As many members as there are, within the bound. -/
theorem firstEnd?_upTo (isMember : Char → Bool) (n : Nat) (p : Place) {run : Text}
    (hrun : (p.rest.take (n + 1)).takeWhile isMember = run) :
    (upTo isMember n).firstEnd? p =
      if run = [] then none else some (p.past run (p.rest.drop run.length)) := by
  subst hrun
  induction n generalizing p with
  | zero =>
    rw [upTo, firstEnd?_one]
    cases p.rest with
    | nil => rfl
    | cons c rest => by_cases hc : isMember c = true <;> simp [hc]
  | succ n ih =>
    rw [upTo, firstEnd?_seq_one]
    cases p.rest with
    | nil => rfl
    | cons c rest =>
      by_cases hc : isMember c = true
      · have hrest := ih (p.past [c] rest)
        simp only [Place.past_rest] at hrest
        simp only [hc, if_true, firstEnd?_opt, hrest, List.take_succ_cons, List.takeWhile_cons,
          List.cons_ne_nil, if_false, List.length_cons, List.drop_succ_cons]
        by_cases hrun : (rest.take (n + 1)).takeWhile isMember = []
        · simp [hrun]
        · simp only [if_neg hrun, Option.getD_some, Place.past_past]
          rfl
      · simp [hc]

theorem spans_upTo (isMember : Char → Bool) (n : Nat) :
    (upTo isMember n).Spans fun t =>
      t ≠ [] ∧ t.length ≤ n + 1 ∧ ∀ c ∈ t, isMember c = true := by
  induction n with
  | zero => exact .one fun c hc => by simp [hc]
  | succ n ih =>
    refine .seq (A := fun t => ∃ c, t = [c] ∧ isMember c = true)
      (B := fun u => u.length ≤ n + 1 ∧ ∀ c ∈ u, isMember c = true)
      (.one fun c hc => ⟨c, rfl, hc⟩) (.opt (ih.mono fun t ht => ht.2) (by simp)) ?_
    rintro _ u ⟨c, rfl, hc⟩ ⟨hlength, hu⟩
    exact ⟨by simp, by simpa using hlength, List.forall_mem_cons.2 ⟨hc, hu⟩⟩

/-- The places that a run of members leads to, from the place where it begins on. -/
theorem reached_eq (isMember : Char → Bool) (p : Place) (nearer : List Place) :
    Place.reached isMember p.groups p.size p.before p.rest p.offset nearer =
      match p.rest with
      | [] => p :: nearer
      | c :: s =>
        if isMember c then
          Place.reached isMember p.groups p.size (c :: p.before) s (p.offset + 1) (p :: nearer)
        else p :: nearer := by
  obtain ⟨before, rest, offset, size, groups⟩ := p
  cases rest <;> rfl

theorem mem_reached {isMember : Char → Bool} {nearer : List Place}
    (hq : q ∈ Place.reached isMember p.groups p.size p.before p.rest p.offset nearer) :
    q ∈ nearer ∨
      ∃ t r, (∀ c ∈ t, isMember c = true) ∧ p.rest = t ++ r ∧ q = p.past t r := by
  have hhere : ∀ {p : Place} {l : List Place}, q ∈ p :: l → q ∈ l ∨
      ∃ t r, (∀ c ∈ t, isMember c = true) ∧ p.rest = t ++ r ∧ q = p.past t r := by
    intro p l hq
    rcases List.mem_cons.1 hq with rfl | hq
    · exact .inr ⟨[], q.rest, by simp, rfl, Place.past_nil.symm⟩
    · exact .inl hq
  induction hrest : p.rest generalizing p nearer with
  | nil =>
    rw [reached_eq, hrest] at hq
    exact hrest ▸ hhere hq
  | cons c s ih =>
    rw [reached_eq, hrest] at hq
    simp only at hq
    split at hq
    · rename_i hc
      rcases ih (p := p.past [c] s) hq rfl with hq | ⟨t, r, ht, rfl, rfl⟩
      · exact hrest ▸ hhere hq
      · exact .inr ⟨c :: t, r, List.forall_mem_cons.2 ⟨hc, ht⟩, rfl, Place.past_past⟩
    · exact hrest ▸ hhere hq

theorem spans_many (isMember : Char → Bool) :
    (many isMember).Spans fun t => ∀ c ∈ t, isMember c = true := by
  intro p q hq
  exact (mem_reached hq).resolve_left List.not_mem_nil

theorem head?_reached (isMember : Char → Bool) (p : Place) (nearer : List Place) :
    (Place.reached isMember p.groups p.size p.before p.rest p.offset nearer).head? =
      some (p.past (p.rest.takeWhile isMember) (p.rest.dropWhile isMember)) := by
  have hhere : ∀ {p : Place} {s : Text}, p.rest = s → some p = some (p.past [] s) := by
    rintro p s rfl
    exact congrArg some Place.past_nil.symm
  induction hrest : p.rest generalizing p nearer with
  | nil =>
    rw [← hrest, reached_eq, hrest]
    exact hhere hrest
  | cons c s ih =>
    rw [← hrest, reached_eq, hrest]
    by_cases hc : isMember c = true
    · have hnext := ih (p.past [c] s) (p :: nearer) rfl
      rw [Place.past_past] at hnext
      simp only [if_pos hc, List.takeWhile_cons_of_pos hc, List.dropWhile_cons_of_pos hc]
      exact hnext
    · simp only [if_neg hc, List.takeWhile_cons_of_neg hc, List.dropWhile_cons_of_neg hc]
      exact hhere hrest

/-- As many members as there are. -/
theorem firstEnd?_many (isMember : Char → Bool) (p : Place) :
    (many isMember).firstEnd? p =
      some (p.past (p.rest.takeWhile isMember) (p.rest.dropWhile isMember)) :=
  head?_reached isMember p []

end

end StylePrune.Pattern
