/-
Regular expressions that are matched leftmost first.

An expression is tried at each place of a text in turn, and at a place its ways to match are tried
in the order of a backtracking matcher: the first alternative before the second, a greedy
repetition from the longest way on, a lazy one from the shortest.  A repetition is one of a class
of characters.

* `ways` — the ways to match at the start of a text, each with what its groups capture and what is
  left of the text;
* `search` — the captures of the first match;
* `Takes` — the way that is tried first, with a rule for each kind of expression;
* `NeverOn` — an expression that matches at no place of a text.
-/
import Mathlib

namespace Zui

/-- A regular expression. -/
inductive Regex
  /-- The empty text. -/
  | empty
  /-- A character of a class. -/
  | one (p : Char → Bool)
  /-- One or more characters of a class, as many as there are. -/
  | many (p : Char → Bool)
  /-- One or more characters of a class, as few as will do. -/
  | few (p : Char → Bool)
  /-- The end of the text. -/
  | atEnd
  | seq (a b : Regex)
  | alt (a b : Regex)
  | group (a : Regex)

namespace Regex

/-- A way to match: the captures of the groups, and the rest of the text. -/
abbrev Way : Type := List (List Char) × List Char

/-- What is left behind one or more characters of a class, from the least of them on. -/
def rests (p : Char → Bool) : List Char → List (List Char)
  | [] => []
  | c :: s => if p c then s :: rests p s else []

/-- The ways to match at the start of a text, from the preferred one on. -/
def ways : Regex → List Char → List Way
  | empty, s => [([], s)]
  | one p, s =>
    match s with
    | [] => []
    | c :: s => if p c then [([], s)] else []
  | many p, s => (rests p s).reverse.map fun t => ([], t)
  | few p, s => (rests p s).map fun t => ([], t)
  | atEnd, s => if s = [] then [([], s)] else []
  | seq a b, s => (ways a s).flatMap fun m => (ways b m.2).map fun n => (m.1 ++ n.1, n.2)
  | alt a b, s => ways a s ++ ways b s
  | group a, s => (ways a s).map fun m => (s.take (s.length - m.2.length) :: m.1, m.2)

/-- Characters of a class, as many as there are. -/
def star (p : Char → Bool) : Regex := alt (many p) empty

/-- What the groups of the first match capture, without the groups that it goes round. -/
def search (r : Regex) : List Char → Option (List (List Char))
  | [] => (r.ways []).head?.map Prod.fst
  | c :: s =>
    match (r.ways (c :: s)).head? with
    | some m => some m.1
    | none => search r s

variable {a b r : Regex} {p : Char → Bool} {s t u v : List Char} {m n : Way}

/-! ### The ways of each kind of expression -/

theorem ways_empty : empty.ways s = [([], s)] := rfl

theorem ways_one_nil : (one p).ways [] = [] := rfl

theorem ways_one_cons {c : Char} : (one p).ways (c :: s) = if p c then [([], s)] else [] := rfl

theorem ways_many : (many p).ways s = (rests p s).reverse.map fun t => ([], t) := rfl

theorem ways_few : (few p).ways s = (rests p s).map fun t => ([], t) := rfl

theorem ways_atEnd : atEnd.ways s = if s = [] then [([], s)] else [] := rfl

theorem ways_seq : (seq a b).ways s =
    (a.ways s).flatMap fun m => (b.ways m.2).map fun n => (m.1 ++ n.1, n.2) := rfl

theorem ways_alt : (alt a b).ways s = a.ways s ++ b.ways s := rfl

theorem ways_group : (group a).ways s =
    (a.ways s).map fun m => (s.take (s.length - m.2.length) :: m.1, m.2) := rfl

/-! ### What is left of a text -/

theorem rests_suffix : ∀ {s : List Char}, t ∈ rests p s → t <:+ s.tail := by
  intro s
  induction s with
  | nil =>
    intro h
    simp [rests] at h
  | cons c s ih =>
    intro h
    rw [rests] at h
    split at h
    · rcases List.mem_cons.mp h with rfl | h
      · exact List.suffix_rfl
      · exact (ih h).trans (List.tail_suffix s)
    · simp at h

theorem many_suffix (h : m ∈ (many p).ways s) : m.2 <:+ s.tail := by
  simp only [ways_many, List.mem_map, List.mem_reverse] at h
  obtain ⟨t, ht, rfl⟩ := h
  exact rests_suffix ht

theorem few_suffix (h : m ∈ (few p).ways s) : m.2 <:+ s.tail := by
  simp only [ways_few, List.mem_map] at h
  obtain ⟨t, ht, rfl⟩ := h
  exact rests_suffix ht

theorem group_few_suffix (h : m ∈ (group (few p)).ways s) : m.2 <:+ s.tail := by
  simp only [ways_group, ways_few, List.map_map, List.mem_map] at h
  obtain ⟨t, ht, rfl⟩ := h
  exact rests_suffix ht

theorem ways_suffix : ∀ {r : Regex} {s : List Char} {m : Way}, m ∈ r.ways s → m.2 <:+ s := by
  intro r
  induction r with
  | empty =>
    intro s m h
    simp only [ways_empty, List.mem_singleton] at h
    exact h ▸ List.suffix_rfl
  | one p =>
    intro s m h
    cases s with
    | nil => simp [ways_one_nil] at h
    | cons c s =>
      simp only [ways_one_cons] at h
      split at h
      · simp only [List.mem_singleton] at h
        exact h ▸ List.suffix_cons c s
      · simp at h
  | many p => exact fun h => (many_suffix h).trans (List.tail_suffix _)
  | few p => exact fun h => (few_suffix h).trans (List.tail_suffix _)
  | atEnd =>
    intro s m h
    simp only [ways_atEnd] at h
    split at h
    · simp only [List.mem_singleton] at h
      exact h ▸ List.suffix_rfl
    · simp at h
  | seq a b iha ihb =>
    intro s m h
    simp only [ways_seq, List.mem_flatMap, List.mem_map] at h
    obtain ⟨n, hn, n', hn', rfl⟩ := h
    exact (ihb hn').trans (iha hn)
  | alt a b iha ihb =>
    intro s m h
    rcases List.mem_append.mp h with h | h
    · exact iha h
    · exact ihb h
  | group a iha =>
    intro s m h
    simp only [ways_group, List.mem_map] at h
    obtain ⟨n, hn, rfl⟩ := h
    have hsuffix := iha hn
    exact hsuffix

/-! ### Expressions that do not match -/

/-- The expression matches at no place of the text. -/
def NeverOn (r : Regex) (s : List Char) : Prop := ∀ t, t <:+ s → r.ways t = []

theorem NeverOn.suffix (h : r.NeverOn s) (ht : t <:+ s) : r.NeverOn t :=
  fun u hu => h u (hu.trans ht)

theorem neverOn_one (h : ∀ c ∈ s, p c = false) : (one p).NeverOn s := by
  intro t ht
  cases t with
  | nil => rfl
  | cons c t => simp [ways_one_cons, h c (ht.subset (by simp))]

theorem rests_eq_nil (hv : ∀ c ∈ v.head?, p c = false) : rests p v = [] := by
  cases v with
  | nil => rfl
  | cons c v => simp [rests, hv c rfl]

theorem many_eq_nil (h : ∀ c ∈ s.head?, p c = false) : (many p).ways s = [] := by
  simp [ways_many, rests_eq_nil h]

theorem seq_eq_nil_left (h : a.ways s = []) : (seq a b).ways s = [] := by
  simp [ways_seq, h]

theorem alt_eq_nil (ha : a.ways s = []) (hb : b.ways s = []) : (alt a b).ways s = [] := by
  simp [ways_alt, ha, hb]

theorem NeverOn.seq_left (h : a.NeverOn s) : (seq a b).NeverOn s :=
  fun t ht => seq_eq_nil_left (h t ht)

theorem ways_seq_eq_nil (h : ∀ m ∈ a.ways s, b.ways m.2 = []) : (seq a b).ways s = [] := by
  simp only [ways_seq, List.flatMap_eq_nil_iff, List.map_eq_nil_iff]
  exact h

theorem NeverOn.seq_right (h : b.NeverOn s) : (seq a b).NeverOn s :=
  fun _ ht => ways_seq_eq_nil fun _ hm => h _ ((ways_suffix hm).trans ht)

theorem NeverOn.alt (ha : a.NeverOn s) (hb : b.NeverOn s) : (alt a b).NeverOn s :=
  fun t ht => alt_eq_nil (ha t ht) (hb t ht)

theorem search_eq_none (h : r.NeverOn s) : r.search s = none := by
  induction s with
  | nil => simp [search, h [] List.suffix_rfl]
  | cons c s ih =>
    rw [search, h _ List.suffix_rfl]
    exact ih (h.suffix (List.suffix_cons c s))

/-! ### The first way to match -/

/-- The way that is tried first. -/
def Takes (r : Regex) (s : List Char) (m : Way) : Prop := (r.ways s).head? = some m

theorem Takes.search (h : r.Takes s m) : r.search s = some m.1 := by
  unfold Takes at h
  cases s <;> simp [Regex.search, h]

theorem takes_empty : empty.Takes s ([], s) := rfl

theorem takes_atEnd : atEnd.Takes [] ([], []) := rfl

theorem takes_one {c : Char} (h : p c) : (one p).Takes (c :: s) ([], s) := by
  simp [Takes, ways_one_cons, h]

theorem rests_append (hu : ∀ c ∈ u, p c) :
    rests p (u ++ v) = u.tails.tail.map (· ++ v) ++ rests p v := by
  induction u with
  | nil => rfl
  | cons c u ih =>
    have htails : u.tails = u :: u.tails.tail := by cases u <;> rfl
    rw [List.cons_append, rests, if_pos (hu c (by simp)), ih fun c hc => hu c (by simp [hc])]
    show _ = (u.tails.map (· ++ v)) ++ _
    conv_rhs => rw [htails]
    rfl

theorem takes_many (hne : u ≠ []) (hu : ∀ c ∈ u, p c) (hv : ∀ c ∈ v.head?, p c = false) :
    (many p).Takes (u ++ v) ([], v) := by
  have hlast : u.tails.tail.getLast? = some [] := by
    cases u with
    | nil => exact absurd rfl hne
    | cons c u => simp [List.getLast?_eq_getElem?]
  simp only [Takes, ways_many, rests_append hu, rests_eq_nil hv, List.append_nil, List.head?_map,
    List.head?_reverse, List.getLast?_map, hlast]
  rfl

theorem takes_star_none (h : ∀ c ∈ s.head?, p c = false) : (star p).Takes s ([], s) := by
  simp [Takes, star, ways_alt, ways_many, ways_empty, rests_eq_nil h]

theorem Takes.seq (ha : a.Takes s m) (hb : b.Takes m.2 n) :
    (seq a b).Takes s (m.1 ++ n.1, n.2) := by
  unfold Takes at ha hb
  obtain ⟨ms, hms⟩ := List.head?_eq_some_iff.mp ha
  obtain ⟨ns, hns⟩ := List.head?_eq_some_iff.mp hb
  simp [Takes, ways_seq, hms, hns]

theorem Takes.alt_left (ha : a.Takes s m) : (alt a b).Takes s m := by
  unfold Takes at ha
  simp [Takes, ways_alt, ha]

theorem Takes.alt_right (ha : a.ways s = []) (hb : b.Takes s m) : (alt a b).Takes s m := by
  unfold Takes at hb
  simp [Takes, ways_alt, ha, hb]

theorem Takes.group {captures : List (List Char)} (ha : a.Takes (u ++ v) (captures, v)) :
    (group a).Takes (u ++ v) (u :: captures, v) := by
  unfold Takes at ha
  simp [Takes, ways_group, ha]

theorem rests_split (hne : u ≠ []) (hu : ∀ c ∈ u, p c) : ∃ ts, rests p (u ++ v) =
    ts ++ v :: rests p v ∧ ∀ t ∈ ts, ∃ w, w ≠ [] ∧ w <:+ u.tail ∧ t = w ++ v := by
  induction u with
  | nil => exact absurd rfl hne
  | cons c u ih =>
    have hrests : rests p (c :: u ++ v) = (u ++ v) :: rests p (u ++ v) := if_pos (hu c (by simp))
    by_cases hu' : u = []
    · subst hu'
      exact ⟨[], hrests, by simp⟩
    · obtain ⟨ts, hts, hmem⟩ := ih hu' fun d hd => hu d (by simp [hd])
      refine ⟨(u ++ v) :: ts, by rw [hrests, hts, List.cons_append], fun t ht => ?_⟩
      rcases List.mem_cons.mp ht with rfl | ht
      · exact ⟨u, hu', List.suffix_rfl, rfl⟩
      · obtain ⟨w, hw, hsuffix, rfl⟩ := hmem t ht
        exact ⟨w, hw, hsuffix.trans (List.tail_suffix u), rfl⟩

/-- A lazy repetition goes on as long as what comes behind it does not match. -/
theorem takes_few (hne : u ≠ []) (hu : ∀ c ∈ u, p c)
    (hskip : ∀ w, w ≠ [] → w <:+ u.tail → b.ways (w ++ v) = []) (hb : b.Takes v m) :
    (seq (group (few p)) b).Takes (u ++ v) (u :: m.1, m.2) := by
  obtain ⟨ts, hts, hmem⟩ := rests_split (v := v) hne hu
  obtain ⟨ms, hms⟩ := List.head?_eq_some_iff.mp hb
  have hnone : ∀ t ∈ ts, b.ways t = [] := by
    intro t ht
    obtain ⟨w, hw, hsuffix, rfl⟩ := hmem t ht
    exact hskip w hw hsuffix
  have hskipped (f : List Char → Way → Way) : ts.flatMap (fun t => (b.ways t).map (f t)) = [] := by
    simp only [List.flatMap_eq_nil_iff, List.map_eq_nil_iff]
    exact hnone
  simp only [Takes, ways_seq, ways_group, ways_few, hts, List.map_map, List.flatMap_map,
    List.flatMap_append,
    List.flatMap_cons, Function.comp_apply]
  rw [hskipped fun t n => ((u ++ v).take ((u ++ v).length - t.length) :: [] ++ n.1, n.2)]
  simp [hms]

end Regex

end Zui
