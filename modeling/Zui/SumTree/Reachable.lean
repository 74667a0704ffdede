/-
Everything that the tree's interface builds is valid.

`Call` lists the calls that make a tree out of trees that were made before, and
`Reachable` is the closure under them.  A cursor that is sliced may have been moved by
any calls.  `Call.run_spec` says that a call on valid trees leaves a valid tree,
unless it is refused because a seek would go backward; `Reachable.valid` follows by
induction.

`Call.Fits` keeps the trees within what the code has room for: a cursor needs a tree
of at most 16 levels, a tree that is appended to must be below the greatest height
that a `u8` holds, and an iterator must not need a higher tree than that.
-/
import Zui.SumTree.Keyed
import Zui.SumTree.Safety

namespace Zui

open SumTree Cursor

/-- A result that is refused with "cannot seek backward" or meets a property. -/
def Allows {α : Type} (Q : α → Prop) (r : Result α) : Prop :=
  r = .error .seekBackward ∨ ∃ a, r = .ok a ∧ Q a

section Allows

variable {α β : Type} {Q : α → Prop} {R : β → Prop}

theorem Allows.ok {a : α} (h : Q a) : Allows Q (.ok a) := Or.inr ⟨a, rfl, h⟩

theorem Allows.bind {x : Result α} {f : α → Result β} (hx : Allows Q x)
    (hf : ∀ a, Q a → Allows R (f a)) : Allows R (x >>= f) := by
  rcases hx with rfl | ⟨a, rfl, ha⟩
  · exact Or.inl rfl
  · exact hf a ha

theorem Allows.of_exists {x : Result α} (h : ∃ a, x = .ok a ∧ Q a) : Allows Q x := Or.inr h

end Allows

theorem Allows.foldlM {α β : Type} {f : β → α → Result β} {m : ℕ} (P : ℕ → β → Prop)
    (hstep : ∀ n b x, n < m → P n b → Allows (P (n + 1)) (f b x)) :
    ∀ (xs : List α) {n : ℕ} {b : β}, n + xs.length ≤ m → P n b →
      Allows (P (n + xs.length)) (xs.foldlM f b) := by
  intro xs
  induction xs with
  | nil =>
    intro n b _ h
    exact .ok h
  | cons x xs ih =>
    intro n b hm h
    rw [List.length_cons] at hm ⊢
    rw [List.foldlM_cons]
    refine Allows.bind (hstep n b x (by omega) h) fun b' hb' => ?_
    have hrest := ih (by omega) hb'
    rwa [Nat.add_right_comm, Nat.add_assoc] at hrest

section Keyed

variable {T S K : Type} [Zero S] [Add S] [Item T S] [LawfulSummary S] [Dimension K S]
  {root : SumTree T S} {c : Cursor T S K} {n : ℕ}

/-- A cursor on `root` that was moved and has at least `n` items behind it. -/
def Standing (root : SumTree T S) (n : ℕ) (c : Cursor T S K) : Prop :=
  c.tree = root ∧ ∃ p, c.At Anyhow p ∧ p ≠ .fresh ∧ n ≤ (p.done root.toList).length

omit [LawfulSummary S] [Zero S] [Add S] [Item T S] [Dimension K S] in
theorem Standing.le_length (h : Standing root n c) : n ≤ root.toList.length := by
  obtain ⟨rfl, p, hat, -, hn⟩ := h
  refine Nat.le_trans hn ?_
  match p, hat with
  | .fresh, _ => exact Nat.zero_le _
  | .beforeFirst, _ => exact Nat.zero_le _
  | .item done x todo, hat => simp [Place.done, hat.2.1.items]
  | .afterLast, _ => exact Nat.le_refl _

/-- A tree that was cut out of `root`, and the cursor behind it. -/
def Cut (root : SumTree T S) (n : ℕ) (r : Cursor T S K × SumTree T S) : Prop :=
  Standing root (n + r.2.toList.length) r.1 ∧ Valid r.2 ∧ r.2.height ≤ 39

theorem slice_allows (target : SeekTarget K) (bias : Bias) (hr : Valid root)
    (hheight : root.height ≤ 15) (htree : c.tree = root) {p : Place T} (hat : c.At Anyhow p)
    (hn : n ≤ (p.done root.toList).length) : Allows (Cut root n) (c.slice target bias) := by
  subst htree
  rcases slice_safe target bias hr hheight hat with
    herr | ⟨c', tree, p', hrun, htree, hat', hp', hv, htall, hlen⟩
  · exact Or.inl herr
  · have hstand : Standing c.tree (n + tree.toList.length) c' :=
      ⟨htree, p', hat', hp', by omega⟩
    have hroom := hr.length_toList_le hheight
    have hle := hstand.le_length
    have htallness := htall.height_le hv (by omega)
    exact Or.inr ⟨(c', tree), hrun, hstand, hv, by omega⟩

theorem suffix_allows (hr : Valid root) (hheight : root.height ≤ 15) (h : Standing root n c) :
    Allows (Cut root n) c.suffix := by
  obtain ⟨htree, p, hat, -, hn⟩ := h
  exact slice_allows _ _ hr hheight htree hat hn

variable [KeyedItem T K] [LinearOrder K]

theorem takeKey_allows (key : K) (hr : Valid root) (hheight : root.height ≤ 15)
    (h : Standing root n c) : Allows (fun r => Standing root n r.1) (c.takeKey key) := by
  obtain ⟨rfl, p, hat, hp, hn⟩ := h
  rw [Cursor.takeKey, item_spec hat hp, ok_bind]
  rcases rest_cases p with ⟨hnone, -⟩ | ⟨done, x, todo, rfl⟩
  · rw [hnone]
    exact .ok ⟨rfl, p, hat, hp, hn⟩
  · simp only [Place.current]
    by_cases hkey : KeyedItem.key x = key
    · obtain ⟨c', p', hnext, htree, hat', hp', -, hdone, -⟩ :=
        next_item tracks_anyhow hr hheight hat
      rw [if_pos hkey, hnext]
      refine .ok ⟨htree, p', hat', hp', ?_⟩
      have hn : n ≤ done.length := hn
      rw [hdone, List.length_append]
      omega
    · rw [if_neg hkey]
      exact .ok ⟨rfl, _, hat, hp, hn⟩

theorem append_allows {a b : SumTree T S} {m : ℕ} (ha : Valid a) (hb : Valid b)
    (han : a.height ≤ m) (hbn : b.height ≤ m) (hm : m < 255) :
    Allows (fun r => Valid r ∧ r.height ≤ m + 1) (append a b) := by
  obtain ⟨r, hrun, hr⟩ := append_spec ha hb han hbn hm
  exact Or.inr ⟨r, hrun, hr.valid, hr.height_le⟩

theorem insertOrReplace_allows {t : SumTree T S} (item : T) (ht : Valid t)
    (hheight : t.height ≤ 15) :
    Allows (fun r => Valid r.1) (t.insertOrReplace item) := by
  refine Allows.bind (slice_allows _ _ ht hheight rfl (at_new tracks_anyhow t) (Nat.zero_le _)) ?_
  rintro ⟨c, newTree⟩ ⟨hstand, hv, hle⟩
  refine Allows.bind (takeKey_allows _ ht hheight hstand) ?_
  rintro ⟨c', replaced⟩ hstand'
  obtain ⟨pushed, hpush, hj⟩ := pushItem_spec hv hle (by omega) item
  refine Allows.bind (.of_exists ⟨pushed, hpush, hj⟩) fun pushed hj => ?_
  refine Allows.bind (suffix_allows ht hheight hstand') ?_
  rintro ⟨c'', suffix⟩ ⟨-, hv', hle'⟩
  refine Allows.bind (append_allows hj.valid hv' hj.height_le (Nat.le_succ_of_le hle')
    (by omega)) ?_
  intro r hr
  exact .ok hr.1

theorem remove_allows {t : SumTree T S} (key : K) (ht : Valid t) (hheight : t.height ≤ 15) :
    Allows (fun r => Valid r.1) (t.remove key) := by
  refine Allows.bind (slice_allows _ _ ht hheight rfl (at_new tracks_anyhow t) (Nat.zero_le _)) ?_
  rintro ⟨c, newTree⟩ ⟨hstand, hv, hle⟩
  refine Allows.bind (takeKey_allows _ ht hheight hstand) ?_
  rintro ⟨c', removed⟩ hstand'
  refine Allows.bind (suffix_allows ht hheight hstand') ?_
  rintro ⟨c'', suffix⟩ ⟨-, hv', hle'⟩
  refine Allows.bind (append_allows hv hv' hle hle' (by omega)) ?_
  intro r hr
  exact .ok hr.1

/-! ### Batches of edits -/

theorem extend_tall {t : SumTree T S} (iter : List T) (ht : Valid t) (htall : Tall 40 t)
    (hlen : t.toList.length ≤ 4 * maxItems) (hiter : iter.length ≤ maxItems) :
    ∃ r, t.extendIter iter = .ok r ∧ Valid r ∧ r.toList = t.toList ++ iter ∧ Tall 40 r := by
  obtain ⟨other, hother, hv, hitems, hheight⟩ :=
    fromIter_spec (S := S) (show 15 ≤ 255 by omega) hiter
  have hle := htall.height_le ht hlen
  obtain ⟨r, hrun, hr, hlist, htall'⟩ := append_tall ht hv htall (by omega)
    (Nat.le_trans hheight (by omega)) (by omega)
  exact ⟨r, by rw [extendIter, hother, ok_bind, hrun], hr, by rw [hlist, hitems], htall'⟩

/-- What the loop of `edit` keeps after `n` edits: the new tree holds items from
before the cursor and from the edits. -/
structure EditInv (root : SumTree T S) (n : ℕ) (e : Editing T S K) : Prop where
  standing : ∃ m, Standing root m e.cursor ∧
    e.newTree.toList.length + e.bufferedItems.length ≤ m + n
  valid : Valid e.newTree
  tall : Tall 40 e.newTree
  buffered : e.bufferedItems.length ≤ n

theorem advance_allows {e : Editing T S K} (key : K) (oldItem : Option T) (hr : Valid root)
    (hheight : root.height ≤ 15) (hn : n ≤ maxItems) (he : EditInv root n e) :
    Allows (fun r => EditInv root n r.1) (e.advance key oldItem) := by
  obtain ⟨⟨m, hstand, hlen⟩, hv, htall, hbuf⟩ := he
  have hroom := hr.length_toList_le hheight
  have hm := hstand.le_length
  rw [Editing.advance]
  split
  · obtain ⟨t₁, hrun₁, hv₁, hitems₁, htall₁⟩ :=
      extend_tall e.bufferedItems hv htall (by omega) (by omega)
    obtain ⟨htree, p, hat, -, hmp⟩ := hstand
    rw [hrun₁, ok_bind]
    refine Allows.bind (slice_allows _ _ hr hheight htree hat hmp) ?_
    rintro ⟨c, slice⟩ ⟨hstand', hv', hle'⟩
    have hlen₁ : t₁.toList.length ≤ m + n := by
      rw [hitems₁, List.length_append]
      exact hlen
    have htallness := htall₁.height_le hv₁ (by omega)
    obtain ⟨t₂, hrun₂, hv₂, hitems₂, htall₂⟩ := append_tall hv₁ hv' htall₁ (by omega)
      (show slice.height ≤ 40 by exact Nat.le_succ_of_le hle') (by omega)
    simp only [hrun₂, ok_bind]
    obtain ⟨hctree, p', hat', hp', hmp'⟩ := id hstand'
    rw [item_spec hat' hp', ok_bind]
    refine .ok ⟨⟨_, hstand', ?_⟩, hv₂, htall₂, Nat.zero_le _⟩
    simp only [hitems₂, List.length_append, List.length_nil]
    omega
  · exact .ok ⟨⟨m, hstand, hlen⟩, hv, htall, hbuf⟩

theorem removeOld_allows {e : Editing T S K} (key : K) (oldItem : Option T) (hr : Valid root)
    (hheight : root.height ≤ 15) (he : EditInv root n e) :
    Allows (EditInv root n) (e.removeOld key oldItem) := by
  cases oldItem with
  | none => exact .ok he
  | some x =>
    rw [Editing.removeOld]
    by_cases hkey : KeyedItem.key x = key
    · obtain ⟨⟨m, ⟨htree, p, hat, hp, hmp⟩, hlen⟩, hv, htall, hbuf⟩ := he
      obtain ⟨c', p', hnext, htree', hat', hp', -, hdone, -⟩ :=
        Cursor.next_spec tracks_anyhow (htree ▸ hr) (htree ▸ hheight) hat
      simp only [if_pos hkey, hnext, ok_bind]
      refine .ok ⟨⟨m, ⟨htree'.trans htree, p', hat', hp', ?_⟩, hlen⟩, hv, htall, hbuf⟩
      rw [htree] at hdone
      rw [hdone, Place.upTo, List.length_append]
      omega
    · rw [if_neg hkey]
      exact .ok he

theorem apply_allows {e : Editing T S K} (edit : Edit T K) (hr : Valid root)
    (hheight : root.height ≤ 15) (hn : n < maxItems) (he : EditInv root n e) :
    Allows (EditInv root (n + 1)) (e.apply edit) := by
  obtain ⟨m, ⟨htree, p, hat, hp, hmp⟩, hlen⟩ := he.standing
  rw [Editing.apply, item_spec hat hp, ok_bind]
  refine Allows.bind (advance_allows edit.key p.current hr hheight (Nat.le_of_lt hn) he) ?_
  rintro ⟨e₁, oldItem⟩ he₁
  refine Allows.bind (removeOld_allows edit.key oldItem hr hheight he₁) ?_
  rintro e₂ ⟨⟨m₂, hstand₂, hlen₂⟩, hv₂, htall₂, hbuf₂⟩
  cases edit with
  | insert item =>
    refine .ok ⟨⟨m₂, hstand₂, ?_⟩, hv₂, htall₂, ?_⟩
    · show e₂.newTree.toList.length + (e₂.bufferedItems ++ [item]).length ≤ m₂ + (n + 1)
      rw [List.length_append, List.length_singleton]
      omega
    · show (e₂.bufferedItems ++ [item]).length ≤ n + 1
      rw [List.length_append, List.length_singleton]
      omega
  | remove key => exact .ok ⟨⟨m₂, hstand₂, by omega⟩, hv₂, htall₂, by omega⟩

theorem edit_allows (sortByKey : SortByKey T K) {t : SumTree T S} {edits : List (Edit T K)}
    (ht : Valid t) (hheight : t.height ≤ 15) (hedits : edits.length ≤ maxItems) :
    Allows (fun r => Valid r.1) (t.edit sortByKey edits) := by
  rw [edit]
  split
  · exact .ok ht
  · have hseek : Allows (fun r => Standing t 0 r.1)
        ((Cursor.new t : Cursor T S K).seek (.of (Dimension.zero S)) .left) := by
      rcases seekForward_safe (c := (Cursor.new t : Cursor T S K).reset) (.of (Dimension.zero S))
        .left ht hheight (at_reset tracks_anyhow _) with herr | ⟨c, found, p, hrun, htree, hat, hp⟩
      · exact Or.inl herr
      · exact Or.inr ⟨(c, found), hrun, htree, p, hat, hp, Nat.zero_le _⟩
    refine Allows.bind hseek ?_
    rintro ⟨c, found⟩ hstand
    have hsorted : (sortByKey.sort edits).length ≤ maxItems := by
      rw [(sortByKey.perm edits).length_eq]
      exact hedits
    have hstart : EditInv t 0 (⟨c, .new, [], []⟩ : Editing T S K) :=
      ⟨⟨0, hstand, by simp⟩, valid_new, Or.inl (Nat.zero_le _), Nat.zero_le _⟩
    refine Allows.bind (Allows.foldlM (m := maxItems) (EditInv t)
      (fun n e edit hn he => apply_allows edit ht hheight hn he) (sortByKey.sort edits)
      (by omega) hstart) ?_
    rintro e ⟨⟨m, hstand', hlen⟩, hv, htall, hbuf⟩
    have hm := hstand'.le_length
    have hroom := ht.length_toList_le hheight
    obtain ⟨t₁, hrun₁, hv₁, hitems₁, htall₁⟩ :=
      extend_tall e.bufferedItems hv htall (by omega) (by omega)
    rw [hrun₁, ok_bind]
    refine Allows.bind (suffix_allows ht hheight hstand') ?_
    rintro ⟨c', suffix⟩ ⟨-, hv', hle'⟩
    have hlen₁ : t₁.toList.length ≤ 4 * maxItems := by
      rw [hitems₁, List.length_append]
      omega
    have htallness := htall₁.height_le hv₁ hlen₁
    refine Allows.bind (append_allows hv₁ hv' (show t₁.height ≤ 64 by omega)
      (Nat.le_trans hle' (by omega)) (by omega)) ?_
    intro r hr
    exact .ok hr.1

end Keyed

/-! ### The calls -/

/-- The calls that make a tree. -/
inductive Call (T S : Type) [Zero S] [Add S] [Item T S] : Type 1
  | fromIter (iter : List T)
  | fromParIter (iter : List T)
  | push (self : SumTree T S) (item : T)
  | append (self other : SumTree T S)
  | extend (self : SumTree T S) (iter : List T)
  | parExtend (self : SumTree T S) (iter : List T)
  | updateFirst (self : SumTree T S) (f : T → T)
  | updateLast (self : SumTree T S) (f : T → T)
  | slice {D : Type} [Dimension D S] (cursor : Cursor T S D) (target : SeekTarget D) (bias : Bias)
  | suffix {D : Type} [Dimension D S] (cursor : Cursor T S D)
  | insertOrReplace {K : Type} [Dimension K S] [KeyedItem T K] [LinearOrder K]
      (self : SumTree T S) (item : T)
  | remove {K : Type} [Dimension K S] [KeyedItem T K] [LinearOrder K] (self : SumTree T S) (key : K)
  | edit {K : Type} [Dimension K S] [KeyedItem T K] [LinearOrder K] (sortByKey : SortByKey T K)
      (self : SumTree T S) (edits : List (Edit T K))

namespace Call

variable {T S : Type} [Zero S] [Add S] [Item T S]

/-- The tree that a call leaves or returns. -/
def run : Call T S → Result (SumTree T S)
  | fromIter iter => SumTree.fromIter iter
  | fromParIter iter => SumTree.fromParIter iter
  | push self item => self.pushItem item
  | append self other => self.append other
  | extend self iter => self.extendIter iter
  | parExtend self iter => self.parExtend iter
  | updateFirst self f => self.updateFirst f
  | updateLast self f => self.updateLast f
  | slice cursor target bias => do
    let (_, tree) ← cursor.slice target bias
    .ok tree
  | suffix cursor => do
    let (_, tree) ← cursor.suffix
    .ok tree
  | insertOrReplace self item => do
    let (self, _) ← self.insertOrReplace item
    .ok self
  | remove self key => do
    let (self, _) ← self.remove key
    .ok self
  | edit sortByKey self edits => do
    let (self, _) ← self.edit sortByKey edits
    .ok self

/-- The trees that a call works on. -/
def trees : Call T S → List (SumTree T S)
  | fromIter _ => []
  | fromParIter _ => []
  | push self _ => [self]
  | append self other => [self, other]
  | extend self _ => [self]
  | parExtend self _ => [self]
  | updateFirst self _ => [self]
  | updateLast self _ => [self]
  | slice cursor _ _ => [cursor.tree]
  | suffix cursor => [cursor.tree]
  | insertOrReplace self _ => [self]
  | remove self _ => [self]
  | edit _ self _ => [self]

/-- A cursor that is sliced was moved by calls from a new one. -/
def CursorMoved : Call T S → Prop
  | slice cursor _ _ => Cursor.Moved cursor.tree cursor
  | suffix cursor => Cursor.Moved cursor.tree cursor
  | _ => True

/-- The call stays within what the code has room for. -/
def Fits : Call T S → Prop
  | fromIter iter => iter.length ≤ (2 * TREE_BASE) ^ 256
  | fromParIter iter => iter.length ≤ (2 * TREE_BASE) ^ 256
  | push self _ => self.height < 255
  | append self other => self.height < 255 ∧ other.height < 255
  | extend self iter => self.height < 255 ∧ iter.length ≤ (2 * TREE_BASE) ^ 255
  | parExtend self iter => self.height < 255 ∧ iter.length ≤ (2 * TREE_BASE) ^ 255
  | updateFirst _ _ => True
  | updateLast _ _ => True
  | slice cursor _ _ => cursor.tree.height ≤ 15
  | suffix cursor => cursor.tree.height ≤ 15
  | insertOrReplace self _ => self.height ≤ 15
  | remove self _ => self.height ≤ 15
  | edit _ self edits => self.height ≤ 15 ∧ edits.length ≤ maxItems

end Call

/-- The trees that calls make out of nothing. -/
inductive Reachable {T S : Type} [Zero S] [Add S] [Item T S] : SumTree T S → Prop
  | call {c : Call T S} {t : SumTree T S} : (∀ u ∈ c.trees, Reachable u) → c.CursorMoved → c.Fits →
      c.run = .ok t → Reachable t

section Calls

variable {T S : Type} [Zero S] [Add S] [Item T S] [LawfulSummary S]

theorem extendIter_spec {t : SumTree T S} {iter : List T} (ht : Valid t) (hheight : t.height < 255)
    (hiter : iter.length ≤ (2 * TREE_BASE) ^ 255) :
    ∃ r, t.extendIter iter = .ok r ∧ Valid r ∧ r.toList = t.toList ++ iter := by
  obtain ⟨other, hother, hv, hitems, hle⟩ :=
    fromIter_spec (S := S) (show 254 ≤ 255 by omega) hiter
  obtain ⟨r, hrun, hj⟩ := append_spec ht hv (Nat.le_of_lt_succ hheight) hle (by omega)
  exact ⟨r, by rw [extendIter, hother, ok_bind, hrun], hj.valid, by rw [hj.items, hitems]⟩

theorem parExtend_spec {t : SumTree T S} {iter : List T} (ht : Valid t) (hheight : t.height < 255)
    (hiter : iter.length ≤ (2 * TREE_BASE) ^ 255) :
    ∃ r, t.parExtend iter = .ok r ∧ Valid r ∧ r.toList = t.toList ++ iter := by
  obtain ⟨other, hother, hv, hitems, hle⟩ :=
    fromParIter_spec (S := S) (show 254 ≤ 255 by omega) hiter
  obtain ⟨r, hrun, hj⟩ := append_spec ht hv (Nat.le_of_lt_succ hheight) hle (by omega)
  exact ⟨r, by rw [parExtend, hother, ok_bind, hrun], hj.valid, by rw [hj.items, hitems]⟩

/-- **A call.**  On valid trees within its room, a call leaves a valid tree, or is
refused because it would seek backward. -/
theorem Call.run_spec (c : Call T S) (hc : ∀ u ∈ c.trees, Valid u) (hcursor : c.CursorMoved)
    (hfits : c.Fits) : Allows Valid c.run := by
  cases c with
  | fromIter iter =>
    obtain ⟨t, hrun, hv, -⟩ := fromIter_spec (S := S) (Nat.le_refl 255) hfits
    exact Or.inr ⟨t, hrun, hv⟩
  | fromParIter iter =>
    obtain ⟨t, hrun, hv, -⟩ := fromParIter_spec (S := S) (Nat.le_refl 255) hfits
    exact Or.inr ⟨t, hrun, hv⟩
  | push self item =>
    have hfits : self.height < 255 := hfits
    obtain ⟨r, hrun, hj⟩ := pushItem_spec (hc self (by simp [trees])) (Nat.le_refl _) hfits item
    exact Or.inr ⟨r, hrun, hj.valid⟩
  | append self other =>
    obtain ⟨r, hrun, hj⟩ := append_spec (n := 254) (hc self (by simp [trees]))
      (hc other (by simp [trees])) (Nat.le_of_lt_succ hfits.1)
        (Nat.le_of_lt_succ hfits.2) (by omega)
    exact Or.inr ⟨r, hrun, hj.valid⟩
  | extend self iter =>
    obtain ⟨r, hrun, hv, -⟩ := extendIter_spec (hc self (by simp [trees])) hfits.1 hfits.2
    exact Or.inr ⟨r, hrun, hv⟩
  | parExtend self iter =>
    obtain ⟨r, hrun, hv, -⟩ := parExtend_spec (hc self (by simp [trees])) hfits.1 hfits.2
    exact Or.inr ⟨r, hrun, hv⟩
  -- an update of an item at an edge keeps the height, so it needs no room
  | updateFirst self f =>
    obtain ⟨r, hrun, hv, -⟩ := updateFirst_spec f (hc self (by simp [trees]))
    exact Or.inr ⟨r, hrun, hv⟩
  | updateLast self f =>
    obtain ⟨r, hrun, hv, -⟩ := updateLast_spec f (hc self (by simp [trees]))
    exact Or.inr ⟨r, hrun, hv⟩
  -- the pieces of a slice are appended, which may exceed the levels
  | slice cursor target bias =>
    have hv := hc cursor.tree (by simp [trees])
    obtain ⟨-, p, hat⟩ := Cursor.Moved.at hv hfits hcursor
    refine Allows.bind (slice_allows target bias hv hfits rfl hat (Nat.zero_le _)) ?_
    rintro ⟨c, tree⟩ ⟨-, hv', -⟩
    exact .ok hv'
  | suffix cursor =>
    have hv := hc cursor.tree (by simp [trees])
    obtain ⟨-, p, hat⟩ := Cursor.Moved.at hv hfits hcursor
    refine Allows.bind (slice_allows _ _ hv hfits rfl hat (Nat.zero_le _)) ?_
    rintro ⟨c, tree⟩ ⟨-, hv', -⟩
    exact .ok hv'
  | insertOrReplace self item =>
    refine Allows.bind (insertOrReplace_allows item (hc self (by simp [trees])) hfits) ?_
    rintro ⟨t, replaced⟩ hv
    exact .ok hv
  | remove self key =>
    refine Allows.bind (remove_allows key (hc self (by simp [trees])) hfits) ?_
    rintro ⟨t, removed⟩ hv
    exact .ok hv
  | edit sortByKey self edits =>
    refine Allows.bind (edit_allows sortByKey (hc self (by simp [trees])) hfits.1 hfits.2) ?_
    rintro ⟨t, removed⟩ hv
    exact .ok hv

/-- Every tree that calls make is valid. -/
theorem Reachable.valid {t : SumTree T S} (h : Reachable t) : Valid t := by
  induction h with
  | @call c t _ hcursor hfits hrun ih =>
    rcases c.run_spec ih hcursor hfits with herr | ⟨r, hr, hv⟩
    · exact absurd (hrun.symm.trans herr) (by simp)
    · obtain rfl := Except.ok.inj (hr.symm.trans hrun)
      exact hv

end Calls

end Zui
