import Mathlib.Data.List.Nodup

/-!
# Tables with a serial primary key

A table hands out its keys itself, one more than the last, and never twice. The two facts every
lookup rests on, no key above the counter and no key on two rows, are fields of the table, so a
table without them cannot be built; `insert` and `update` are the only ways to change one.
-/

set_option autoImplicit false

namespace Sql

/-- A row type with its primary key. -/
class Keyed (R : Type) where
  key : R → Nat

/-- A table: its rows in insertion order and the last key it handed out. -/
structure Table (R : Type) [Keyed R] where
  rows : List R
  seq : Nat
  bounded : ∀ r ∈ rows, Keyed.key r ≤ seq
  distinct : (rows.map Keyed.key).Nodup

namespace Table

variable {R : Type} [Keyed R]

/-- The table before any insertion. -/
def empty : Table R := ⟨[], 0, by simp, by simp⟩

instance : Inhabited (Table R) := ⟨empty⟩

/-- The row with a key, if there is one. -/
def get? (t : Table R) (i : Nat) : Option R := t.rows.find? (Keyed.key · == i)

/-- `INSERT`: the row that `mk` makes of the next key. -/
def insert (t : Table R) (mk : Nat → R) (hmk : ∀ i, Keyed.key (mk i) = i) : Table R where
  rows := t.rows ++ [mk (t.seq + 1)]
  seq := t.seq + 1
  bounded := by
    intro r hr
    rcases List.mem_append.mp hr with hr | hr
    · exact Nat.le_succ_of_le (t.bounded r hr)
    · exact Nat.le_of_eq (by rw [List.mem_singleton.mp hr, hmk])
  distinct := by
    rw [List.map_append, List.nodup_append]
    refine ⟨t.distinct, by simp, ?_⟩
    intro a ha b hb hab
    obtain ⟨r, hr, rfl⟩ := List.mem_map.mp ha
    rw [List.map_singleton, List.mem_singleton, hmk] at hb
    have := t.bounded r hr
    omega

/-- `UPDATE ... WHERE p`. -/
def update (t : Table R) (p : R → Bool) (f : R → R) (hf : ∀ r, Keyed.key (f r) = Keyed.key r) :
    Table R where
  rows := t.rows.map fun r => if p r then f r else r
  seq := t.seq
  bounded := by
    intro r hr
    obtain ⟨r', hr', rfl⟩ := List.mem_map.mp hr
    split
    · rw [hf]; exact t.bounded r' hr'
    · exact t.bounded r' hr'
  distinct := by
    rw [List.map_map]
    have hkey : (Keyed.key ∘ fun r => if p r then f r else r) = (Keyed.key : R → Nat) := by
      funext r
      rw [Function.comp_apply]
      split
      · exact hf r
      · rfl
    rw [hkey]
    exact t.distinct

/-- `DELETE ... WHERE p`: the counter stays, so that no key is handed out again. -/
def delete (t : Table R) (p : R → Bool) : Table R where
  rows := t.rows.filter fun r => !p r
  seq := t.seq
  bounded := fun r hr => t.bounded r (List.mem_filter.mp hr).1
  distinct := t.distinct.sublist (List.filter_sublist.map _)

/-- How many rows an `UPDATE` or a `SELECT COUNT(*)` finds. -/
def count (t : Table R) (p : R → Bool) : Nat := t.rows.countP p

@[simp] theorem rows_insert (t : Table R) (mk : Nat → R) (hmk : ∀ i, Keyed.key (mk i) = i) :
    (t.insert mk hmk).rows = t.rows ++ [mk (t.seq + 1)] := rfl

@[simp] theorem seq_insert (t : Table R) (mk : Nat → R) (hmk : ∀ i, Keyed.key (mk i) = i) :
    (t.insert mk hmk).seq = t.seq + 1 := rfl

@[simp] theorem rows_update (t : Table R) (p : R → Bool) (f : R → R)
    (hf : ∀ r, Keyed.key (f r) = Keyed.key r) :
    (t.update p f hf).rows = t.rows.map fun r => if p r then f r else r := rfl

@[simp] theorem seq_update (t : Table R) (p : R → Bool) (f : R → R)
    (hf : ∀ r, Keyed.key (f r) = Keyed.key r) : (t.update p f hf).seq = t.seq := rfl

@[simp] theorem rows_delete (t : Table R) (p : R → Bool) :
    (t.delete p).rows = t.rows.filter fun r => !p r := rfl

@[simp] theorem seq_delete (t : Table R) (p : R → Bool) : (t.delete p).seq = t.seq := rfl

/-! ## Lookups -/

theorem key_of_get? {t : Table R} {i : Nat} {r : R} (h : t.get? i = some r) :
    Keyed.key r = i := by
  simpa using List.find?_some h

theorem mem_of_get? {t : Table R} {i : Nat} {r : R} (h : t.get? i = some r) : r ∈ t.rows :=
  List.mem_of_find?_eq_some h

/-- Two rows of a table with one key are one row. -/
theorem eq_of_key_eq {t : Table R} {r r' : R} (h : r ∈ t.rows) (h' : r' ∈ t.rows)
    (hk : Keyed.key r = Keyed.key r') : r = r' :=
  List.inj_on_of_nodup_map t.distinct h h' hk

/-- A lookup finds a row exactly when the row is there. -/
theorem get?_eq_some_iff {t : Table R} {i : Nat} {r : R} :
    t.get? i = some r ↔ r ∈ t.rows ∧ Keyed.key r = i := by
  refine ⟨fun h => ⟨mem_of_get? h, key_of_get? h⟩, fun ⟨hr, hk⟩ => ?_⟩
  cases hg : t.get? i with
  | none =>
    have := List.find?_eq_none.mp hg r hr
    simp [hk] at this
  | some r' =>
    rw [eq_of_key_eq hr (mem_of_get? hg) (hk.trans (key_of_get? hg).symm)]

theorem get?_of_mem {t : Table R} {r : R} (h : r ∈ t.rows) : t.get? (Keyed.key r) = some r :=
  get?_eq_some_iff.mpr ⟨h, rfl⟩

theorem get?_eq_none_of_lt {t : Table R} {i : Nat} (h : t.seq < i) : t.get? i = none := by
  refine List.find?_eq_none.mpr fun r hr => ?_
  have := t.bounded r hr
  simp only [beq_iff_eq]
  omega

/-- An insertion keeps every row and adds one under a key that had none. -/
theorem get?_insert (t : Table R) (mk : Nat → R) (hmk : ∀ i, Keyed.key (mk i) = i) (i : Nat) :
    (t.insert mk hmk).get? i = if i = t.seq + 1 then some (mk i) else t.get? i := by
  by_cases hi : i = t.seq + 1
  · rw [if_pos hi]
    subst hi
    exact get?_eq_some_iff.mpr ⟨by simp, hmk _⟩
  · rw [if_neg hi]
    show (t.rows ++ [mk (t.seq + 1)]).find? _ = _
    rw [List.find?_append]
    have hlast : List.find? (fun r => Keyed.key r == i) [mk (t.seq + 1)] = none := by
      simp [hmk, Ne.symm hi]
    rw [hlast, Option.or_none]
    rfl

/-- An insertion does not change a row that is there. -/
theorem get?_insert_of_some {t : Table R} {i : Nat} {r : R} (h : t.get? i = some r)
    (mk : Nat → R) (hmk : ∀ i, Keyed.key (mk i) = i) : (t.insert mk hmk).get? i = some r := by
  have hle := t.bounded r (mem_of_get? h)
  rw [key_of_get? h] at hle
  rw [get?_insert, if_neg (by omega), h]

/-- An update rewrites the rows it finds where they stand. -/
theorem get?_update (t : Table R) (p : R → Bool) (f : R → R)
    (hf : ∀ r, Keyed.key (f r) = Keyed.key r) (i : Nat) :
    (t.update p f hf).get? i = (t.get? i).map fun r => if p r then f r else r := by
  show List.find? _ (t.rows.map _) = _
  rw [List.find?_map]
  have hkey : ((fun r => Keyed.key r == i) ∘ fun r => if p r then f r else r) =
      fun r : R => Keyed.key r == i := by
    funext r
    rw [Function.comp_apply]
    split
    · rw [hf]
    · rfl
  rw [hkey]
  rfl

/-- An update that finds every row with one key rewrites the row with that key. -/
theorem get?_update_self (t : Table R) {p : R → Bool} {f : R → R}
    (hf : ∀ r, Keyed.key (f r) = Keyed.key r) {i : Nat}
    (hp : ∀ r, Keyed.key r = i → p r = true) : (t.update p f hf).get? i = (t.get? i).map f := by
  rw [get?_update]
  cases hr : t.get? i with
  | none => rfl
  | some r => rw [Option.map_some, Option.map_some, if_pos (hp r (key_of_get? hr))]

/-- How an update changes the row with one key: not at all, or as it rewrites it. -/
theorem update_induction {P : Option R → Option R → Prop} (t : Table R) (p : R → Bool) (f : R → R)
    (hf : ∀ r, Keyed.key (f r) = Keyed.key r) (i : Nat) (same : ∀ r, P r r)
    (hit : ∀ r, Keyed.key r = i → p r = true → P (some r) (some (f r))) :
    P (t.get? i) ((t.update p f hf).get? i) := by
  rw [get?_update]
  cases hr : t.get? i with
  | none => exact same none
  | some r =>
    rw [Option.map_some]
    split
    · next hp => exact hit r (key_of_get? hr) hp
    · exact same (some r)

/-- How an insertion changes the row with one key: not at all, or from nothing to the new row. -/
theorem insert_induction {P : Option R → Option R → Prop} (t : Table R) (mk : Nat → R)
    (hmk : ∀ i, Keyed.key (mk i) = i) (i : Nat) (same : ∀ r, P r r) (new : P none (some (mk i))) :
    P (t.get? i) ((t.insert mk hmk).get? i) := by
  rw [get?_insert]
  by_cases hi : i = t.seq + 1
  · rw [if_pos hi, get?_eq_none_of_lt (by omega)]
    exact new
  · rw [if_neg hi]
    exact same _

/-- A row after an update is a row before it, rewritten or not. -/
theorem mem_update {t : Table R} {p : R → Bool} {f : R → R}
    {hf : ∀ r, Keyed.key (f r) = Keyed.key r} {r : R} :
    r ∈ (t.update p f hf).rows ↔ ∃ r' ∈ t.rows, (if p r' then f r' else r') = r := by
  simp only [rows_update, List.mem_map]

theorem mem_insert {t : Table R} {mk : Nat → R} {hmk : ∀ i, Keyed.key (mk i) = i} {r : R} :
    r ∈ (t.insert mk hmk).rows ↔ r ∈ t.rows ∨ r = mk (t.seq + 1) := by
  simp only [rows_insert, List.mem_append, List.mem_singleton]

/-- A deletion keeps the rows it does not find. -/
theorem get?_delete {t : Table R} {p : R → Bool} {i : Nat} {r : R} :
    (t.delete p).get? i = some r ↔ t.get? i = some r ∧ p r = false := by
  rw [get?_eq_some_iff, get?_eq_some_iff, rows_delete, List.mem_filter, Bool.not_eq_true',
    and_right_comm]

/-- A row after a deletion is a row before it. -/
theorem mem_delete {t : Table R} {p : R → Bool} {r : R} :
    r ∈ (t.delete p).rows ↔ r ∈ t.rows ∧ p r = false := by
  simp only [rows_delete, List.mem_filter, Bool.not_eq_true']

/-- Nothing is deleted. -/
theorem delete_none (t : Table R) : t.delete (fun _ => false) = t := by
  obtain ⟨rows, seq, _, _⟩ := t
  unfold delete
  congr
  exact List.filter_eq_self.mpr fun _ _ => rfl

/-! ## The order of the keys -/

/-- The rows stand in the order of their keys: `ORDER BY id` is the order of insertion. -/
def Ascending (t : Table R) : Prop := t.rows.Pairwise fun r r' => Keyed.key r < Keyed.key r'

theorem ascending_empty : (empty : Table R).Ascending := List.Pairwise.nil

theorem Ascending.insert {t : Table R} (h : t.Ascending) (mk : Nat → R)
    (hmk : ∀ i, Keyed.key (mk i) = i) : (t.insert mk hmk).Ascending := by
  unfold Ascending
  rw [rows_insert, List.pairwise_append]
  refine ⟨h, List.pairwise_singleton _ _, ?_⟩
  intro r hr r' hr'
  rw [List.mem_singleton.mp hr', hmk]
  exact Nat.lt_succ_of_le (t.bounded r hr)

theorem Ascending.update {t : Table R} (h : t.Ascending) (p : R → Bool) {f : R → R}
    (hf : ∀ r, Keyed.key (f r) = Keyed.key r) : (t.update p f hf).Ascending := by
  have hkey (r : R) : Keyed.key (if p r then f r else r) = Keyed.key r := by
    split
    · exact hf r
    · rfl
  unfold Ascending
  rw [rows_update, List.pairwise_map]
  simp only [hkey]
  exact h

theorem Ascending.delete {t : Table R} (h : t.Ascending) (p : R → Bool) :
    (t.delete p).Ascending := by
  unfold Ascending
  rw [rows_delete]
  exact h.filter _

/-! ## Later tables -/

/-- A table comes after another one: new rows have new keys, and a row that is there under an old
key was there before, and the two are related. -/
structure Follows (Rel : R → R → Prop) (t t' : Table R) : Prop where
  seq : t.seq ≤ t'.seq
  row : ∀ i r', i ≤ t.seq → t'.get? i = some r' → ∃ r, t.get? i = some r ∧ Rel r r'

section Follows

variable {Rel : R → R → Prop}

theorem Follows.refl (hrefl : ∀ r, Rel r r) (t : Table R) : t.Follows Rel t :=
  ⟨Nat.le_refl _, fun _ r _ hr => ⟨r, hr, hrefl r⟩⟩

theorem follows_insert (hrefl : ∀ r, Rel r r) (t : Table R) (mk : Nat → R)
    (hmk : ∀ i, Keyed.key (mk i) = i) : t.Follows Rel (t.insert mk hmk) := by
  refine ⟨Nat.le_succ _, ?_⟩
  intro i r' hi hr'
  rw [get?_insert, if_neg (by omega)] at hr'
  exact ⟨r', hr', hrefl r'⟩

theorem follows_update (hrefl : ∀ r, Rel r r) (t : Table R) (p : R → Bool) {g : R → R}
    (hg : ∀ r, Keyed.key (g r) = Keyed.key r) (hrel : ∀ r, Rel r (g r)) :
    t.Follows Rel (t.update p g hg) := by
  refine ⟨Nat.le_refl _, ?_⟩
  intro i r' _ hr'
  rw [get?_update] at hr'
  obtain ⟨r, hr, rfl⟩ := Option.map_eq_some_iff.mp hr'
  refine ⟨r, hr, ?_⟩
  split
  · exact hrel r
  · exact hrefl r

theorem follows_delete (hrefl : ∀ r, Rel r r) (t : Table R) (p : R → Bool) :
    t.Follows Rel (t.delete p) :=
  ⟨Nat.le_refl _, fun _ r' _ hr' => ⟨r', (get?_delete.mp hr').1, hrefl r'⟩⟩

theorem Follows.trans (htrans : ∀ r r' r'', Rel r r' → Rel r' r'' → Rel r r'')
    {t t' t'' : Table R} (h : t.Follows Rel t') (h' : t'.Follows Rel t'') : t.Follows Rel t'' := by
  refine ⟨Nat.le_trans h.seq h'.seq, ?_⟩
  intro i r'' hi hr''
  obtain ⟨r', hr', hrel'⟩ := h'.row i r'' (Nat.le_trans hi h.seq) hr''
  obtain ⟨r, hr, hrel⟩ := h.row i r' hi hr'
  exact ⟨r, hr, htrans r r' r'' hrel hrel'⟩

/-- Two rows under one key, one read earlier and one later. -/
theorem Follows.related {t t' : Table R} (h : t.Follows Rel t') {i : Nat} {r r' : R}
    (hr : t.get? i = some r) (hr' : t'.get? i = some r') : Rel r r' := by
  have hi : i ≤ t.seq := by
    rw [← key_of_get? hr]
    exact t.bounded r (mem_of_get? hr)
  obtain ⟨r₀, hr₀, hrel⟩ := h.row i r' hi hr'
  rwa [Option.some.inj (hr₀.symm.trans hr)] at hrel

end Follows

/-! ## Counts -/

/-- No row is counted under a key exactly where the key has none. -/
theorem count_key_eq_zero {t : Table R} {i : Nat} :
    t.count (Keyed.key · == i) = 0 ↔ t.get? i = none := by
  unfold count get?
  rw [List.countP_eq_zero, List.find?_eq_none]

/-- An update that does not change whether a row counts does not change the count. -/
theorem count_update {t : Table R} {p q : R → Bool} {f : R → R}
    (hf : ∀ r, Keyed.key (f r) = Keyed.key r) (hq : ∀ r, q (f r) = q r) :
    (t.update p f hf).count q = t.count q := by
  unfold count
  rw [rows_update, List.countP_map]
  refine List.countP_congr fun r _ => ?_
  rw [Function.comp_apply]
  split
  · rw [hq]
  · exact Iff.rfl

theorem count_insert (t : Table R) (mk : Nat → R) (hmk : ∀ i, Keyed.key (mk i) = i) (q : R → Bool) :
    (t.insert mk hmk).count q = t.count q + if q (mk (t.seq + 1)) then 1 else 0 := by
  unfold count
  rw [rows_insert, List.countP_append, List.countP_singleton]

/-- Where two rows count, one of them has another key than a given one. -/
theorem exists_ne_of_two_le_count {t : Table R} {p : R → Bool} (h : 2 ≤ t.count p) (i : Nat) :
    ∃ r ∈ t.rows, p r = true ∧ Keyed.key r ≠ i := by
  unfold count at h
  rw [List.countP_eq_length_filter] at h
  have hnodup : ((t.rows.filter p).map Keyed.key).Nodup :=
    t.distinct.sublist (List.filter_sublist.map _)
  have hmem {r : R} (hr : r ∈ t.rows.filter p) : r ∈ t.rows ∧ p r = true := List.mem_filter.mp hr
  generalize t.rows.filter p = rows at h hnodup hmem
  match rows with
  | [] => simp at h
  | [_] => simp at h
  | a :: b :: _ =>
    have ha := hmem (List.mem_cons_self ..)
    have hb := hmem (List.mem_cons_of_mem a (List.mem_cons_self ..))
    by_cases hai : Keyed.key a = i
    · refine ⟨b, hb.1, hb.2, ?_⟩
      intro hbi
      rw [List.map_cons, List.map_cons, List.nodup_cons] at hnodup
      exact hnodup.1 (hai.trans hbi.symm ▸ List.mem_cons_self ..)
    · exact ⟨a, ha.1, ha.2, hai⟩

/-- Two tables that hold the same rows and counter are the same table. -/
theorem ext {t t' : Table R} (hrows : t.rows = t'.rows) (hseq : t.seq = t'.seq) : t = t' := by
  cases t
  cases t'
  cases hrows
  cases hseq
  rfl

/-- An update that finds nothing changes nothing. -/
theorem update_of_none {t : Table R} {p : R → Bool} {f : R → R}
    {hf : ∀ r, Keyed.key (f r) = Keyed.key r} (h : ∀ r ∈ t.rows, p r = false) :
    t.update p f hf = t := by
  refine ext ?_ rfl
  rw [rows_update]
  refine (List.map_congr_left fun r hr => ?_).trans (List.map_id t.rows)
  rw [h r hr]
  rfl

end Table

end Sql
