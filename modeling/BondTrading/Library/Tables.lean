/-
  File:      BondTrading/Library/Tables.lean
  Subject:   KEYED TABLES: `std::map` as an association list, and a vector searched by key.

  Names nothing of the modelled program.

  * `Table` -- `std::map`: Mathlib's association lists, whose keys are distinct by construction;
    `inOrder` -- its elements as an iterator meets them, by key;
  * `total`, `total_insert_new`, `total_insert_old` -- the sum over a table, and what one assignment
    does to it;
  * `upsert` -- search a vector from the front, change the first hit in place, otherwise append;
    its keys are the keys met so far in order of first appearance (`keys_upsert`,
    `eraseDups_concat`);
  * `sum_find` -- looking the keys of a list up one by one adds up to the entries that carry them;
    `sum_keys` -- so do the sums over the elements of each key;
  * `twice` -- a vector every element was pushed to two times, and how it is searched;
  * `pairs_concat` -- two lists that grow together; `exists_first_repeat` -- where keys stop being
    distinct;
  * `find?_eq_getElem?` -- a search for the key of one element among distinct keys.
-/
import Mathlib.Data.List.AList
import Mathlib.Data.List.Induction
import Mathlib.Data.List.Sort
import Mathlib.Algebra.BigOperators.Group.List.Basic
import Mathlib.Tactic.Abel

namespace Cxx

universe u v

/-- `std::map<κ, V>`. -/
abbrev Table (κ : Type u) (V : Type v) := AList fun _ : κ => V

/-- The elements of a map as an iterator meets them: in the order of the keys. -/
def inOrder {κ : Type u} {V : Type v} [LE κ] [DecidableLE κ] (t : Table κ V) :
    List (Sigma fun _ : κ => V) :=
  t.entries.insertionSort fun e e' => e.1 ≤ e'.1

theorem perm_inOrder {κ : Type u} {V : Type v} [LE κ] [DecidableLE κ] (t : Table κ V) :
    (inOrder t).Perm t.entries :=
  List.perm_insertionSort _ _

/-! ## 1. Sums over a table -/

section Total

variable {κ : Type u} {M : Type v} [AddCommGroup M]

/-- The sum of the values of a table. -/
def total (t : Table κ M) : M := (t.entries.map fun e => e.2).sum

@[simp] theorem total_empty : total (∅ : Table κ M) = 0 := rfl

variable [DecidableEq κ]

theorem total_insert_new {t : Table κ M} {k : κ} (v : M) (h : t.lookup k = none) :
    total (t.insert k v) = total t + v := by
  unfold total
  rw [AList.entries_insert_of_notMem (AList.lookup_eq_none.mp h), List.map_cons, List.sum_cons,
    add_comm]

/-- **Assignment to a key that is there** replaces its summand. -/
theorem total_insert_old {t : Table κ M} {k : κ} {old : M} (v : M) (h : t.lookup k = some old) :
    total (t.insert k v) = total t - old + v := by
  have hk : k ∈ t.entries.keys := by
    rw [← List.dlookup_isSome, show t.entries.dlookup k = some old from h]
    rfl
  obtain ⟨b, l₁, l₂, hl₁, hl, he⟩ := List.exists_of_kerase hk
  have hb : b = old := by
    have h' : t.entries.dlookup k = some old := h
    rw [hl, List.dlookup_append, List.dlookup_eq_none.mpr hl₁] at h'
    simpa using h'
  subst hb
  unfold total
  rw [AList.entries_insert, he, hl]
  simp only [List.map_cons, List.map_append, List.sum_cons, List.sum_append]
  abel

end Total

/-! ## 2. A vector searched by key -/

section Upsert

variable {α : Type u} {κ : Type v}

/-- The loop that replaces the first hit in place, and appends `fresh` when it falls through. -/
def upsert (hit : α → Bool) (update : α → α) (fresh : α) : List α → List α
  | [] => [fresh]
  | a :: as => if hit a then update a :: as else a :: upsert hit update fresh as

variable {hit : α → Bool} {update : α → α} {fresh : α} {key : α → κ} {k : κ}

/-- **The keys after a search-and-replace**: unchanged where the key was there, one more at the
    end otherwise. -/
theorem keys_upsert [DecidableEq κ] (hhit : ∀ a, hit a = true ↔ key a = k)
    (hupdate : ∀ a, hit a = true → key (update a) = key a) (hfresh : key fresh = k) (as : List α) :
    (upsert hit update fresh as).map key =
      if k ∈ as.map key then as.map key else as.map key ++ [k] := by
  induction as with
  | nil => simp [upsert, hfresh]
  | cons a as ih =>
      by_cases ha : hit a = true
      · simp [upsert, ha, hupdate a ha, ((hhit a).mp ha).symm]
      · have hne : key a ≠ k := fun e => ha ((hhit a).mpr e)
        simp only [upsert, ha, Bool.false_eq_true, if_false, List.map_cons, ih, List.mem_cons,
          Ne.symm hne, false_or]
        split_ifs <;> rfl

/-- Only what becomes of the first hit matters. -/
theorem upsert_congr {update' : α → α} {as : List α}
    (h : ∀ a, as.find? hit = some a → update' a = update a) :
    upsert hit update' fresh as = upsert hit update fresh as := by
  induction as with
  | nil => rfl
  | cons a as ih =>
      by_cases ha : hit a = true
      · simp [upsert, ha, h a (List.find?_cons_of_pos ha)]
      · simp only [upsert, ha, Bool.false_eq_true, if_false]
        rw [ih fun b hb => h b ((List.find?_cons_of_neg ha).trans hb)]

/-- Every entry after a search-and-replace is an old one, the new one, or a replaced one. -/
theorem mem_upsert {as : List α} {b : α} (h : b ∈ upsert hit update fresh as) :
    b ∈ as ∨ (b = fresh ∧ ∀ a ∈ as, hit a = false) ∨ ∃ a ∈ as, hit a = true ∧ b = update a := by
  induction as with
  | nil =>
      simp only [upsert, List.mem_singleton] at h
      exact Or.inr (Or.inl ⟨h, fun a ha => by cases ha⟩)
  | cons a as ih =>
      by_cases ha : hit a = true
      · simp only [upsert, ha, if_true, List.mem_cons] at h
        rcases h with rfl | h
        · exact Or.inr (Or.inr ⟨a, List.mem_cons_self, ha, rfl⟩)
        · exact Or.inl (List.mem_cons_of_mem _ h)
      · simp only [upsert, ha, Bool.false_eq_true, if_false, List.mem_cons] at h
        rcases h with rfl | h
        · exact Or.inl List.mem_cons_self
        · rcases ih h with h | ⟨h, hn⟩ | ⟨c, hc, hh, he⟩
          · exact Or.inl (List.mem_cons_of_mem _ h)
          · refine Or.inr (Or.inl ⟨h, fun c hc => ?_⟩)
            rcases List.mem_cons.mp hc with rfl | hc
            · simpa using ha
            · exact hn c hc
          · exact Or.inr (Or.inr ⟨c, List.mem_cons_of_mem _ hc, hh, he⟩)

/-- The entry found under the key after a search-and-replace. -/
theorem find?_upsert_self (hupdate : ∀ a, hit a = true → hit (update a) = true)
    (hfresh : hit fresh = true) (as : List α) :
    (upsert hit update fresh as).find? hit = some (((as.find? hit).map update).getD fresh) := by
  induction as with
  | nil => simp [upsert, hfresh]
  | cons a as ih =>
      by_cases ha : hit a = true
      · simp [upsert, ha, hupdate a ha]
      · simp [upsert, ha, ih]

/-- Entries under another key are found as before. -/
theorem find?_upsert_other {p : α → Bool} (hupdate : ∀ a, hit a = true → p a = false ∧
    p (update a) = false) (hfresh : p fresh = false) (as : List α) :
    (upsert hit update fresh as).find? p = as.find? p := by
  induction as with
  | nil => simp [upsert, hfresh]
  | cons a as ih =>
      by_cases ha : hit a = true
      · simp [upsert, ha, (hupdate a ha).1, (hupdate a ha).2]
      · simp only [upsert, ha, Bool.false_eq_true, if_false, List.find?_cons, ih]

/-- One more element: the distinct elements in order of first appearance. -/
theorem eraseDups_concat [DecidableEq κ] (ks : List κ) (k : κ) :
    (ks ++ [k]).eraseDups = if k ∈ ks.eraseDups then ks.eraseDups else ks.eraseDups ++ [k] := by
  rw [List.eraseDups_append]
  by_cases h : k ∈ ks
  · simp [List.removeAll, h]
  · simp [List.removeAll, h, List.eraseDups_cons]

theorem nodup_eraseDups [DecidableEq κ] (ks : List κ) : ks.eraseDups.Nodup := by
  induction ks using List.reverseRecOn with
  | nil => exact List.nodup_nil
  | append_singleton ks k ih =>
      rw [eraseDups_concat]
      split_ifs with hk
      · exact ih
      · exact ih.append (List.nodup_singleton _) (by rw [List.disjoint_singleton]; exact hk)

/-- In another order the same keys are met. -/
theorem perm_eraseDups [DecidableEq κ] {ks ks' : List κ} (h : ks.Perm ks') :
    ks.eraseDups.Perm ks'.eraseDups := by
  rw [List.perm_ext_iff_of_nodup (nodup_eraseDups ks) (nodup_eraseDups ks')]
  intro k
  rw [List.mem_eraseDups, List.mem_eraseDups]
  exact h.mem_iff

/-- One more element of a list some elements are picked out of. -/
theorem filterMap_concat {β : Type*} (get : α → Option β) (as : List α) (a : α) :
    (as ++ [a]).filterMap get = as.filterMap get ++ (get a).toList := by
  rw [List.filterMap_append]
  cases h : get a <;> simp [h]

/-- Among distinct keys, one key is met at most once. -/
theorem sum_single {M : Type*} [AddCommMonoid M] [DecidableEq κ] {ks : List κ} (hks : ks.Nodup)
    (k : κ) (m : M) :
    (ks.map fun k' => if k' = k then m else 0).sum = if k ∈ ks then m else 0 := by
  by_cases h : k ∈ ks
  · rw [List.sum_map_eq_nsmul_single k _ fun k' hne _ => if_neg hne,
      List.count_eq_one_of_mem hks h, one_nsmul, if_pos rfl, if_pos h]
  · rw [if_neg h]
    refine List.sum_eq_zero fun x hx => ?_
    obtain ⟨k', hk', rfl⟩ := List.mem_map.mp hx
    exact if_neg fun e : k' = k => h (e ▸ hk')

variable (key) in
/-- **Sorting by key adds up**: for distinct keys `ks`, the sums over the elements of each key make up
    the sum over the elements whose key is in `ks`. -/
theorem sum_keys {M : Type*} [AddCommMonoid M] [DecidableEq κ] (f : α → M) {ks : List κ}
    (hks : ks.Nodup) (as : List α) :
    (ks.map fun k => ((as.filter fun a => key a = k).map f).sum).sum =
      ((as.filter fun a => key a ∈ ks).map f).sum := by
  induction as with
  | nil => simp
  | cons a as ih =>
      have hsplit : ∀ k, (((a :: as).filter fun b => key b = k).map f).sum =
          (if k = key a then f a else 0) + ((as.filter fun b => key b = k).map f).sum := by
        intro k
        by_cases hk : key a = k
        · simp [hk]
        · simp [hk, Ne.symm hk]
      rw [List.map_congr_left fun k _ => hsplit k, List.sum_map_add, ih, sum_single hks]
      by_cases hm : key a ∈ ks
      · simp [hm]
      · simp [hm]

/-- **Looking up adds up**: for distinct keys `ks` over entries with distinct keys, the sum of
    what is found under each is the sum over the entries whose key is in `ks`. -/
theorem sum_find {M : Type*} [AddCommMonoid M] [DecidableEq κ] (f : α → M) {ks : List κ}
    (hks : ks.Nodup) {as : List α} (has : (as.map key).Nodup) :
    (ks.map fun k => ((as.find? fun a => key a = k).map f).getD 0).sum =
      ((as.filter fun a => key a ∈ ks).map f).sum := by
  induction as with
  | nil => simp
  | cons a as ih =>
      rw [List.map_cons, List.nodup_cons] at has
      have hsplit : ∀ k, (((a :: as).find? fun b => key b = k).map f).getD 0 =
          (if k = key a then f a else 0) + ((as.find? fun b => key b = k).map f).getD 0 := by
        intro k
        by_cases hk : key a = k
        · have hnone : (as.find? fun b => key b = k) = none := by
            rw [List.find?_eq_none]
            intro b hb hbk
            exact has.1 (List.mem_map.mpr ⟨b, hb, (of_decide_eq_true hbk).trans hk.symm⟩)
          simp [hk, hnone]
        · simp [hk, Ne.symm hk]
      simp only [hsplit, List.sum_map_add, ih has.2, sum_single hks, List.filter_cons,
        decide_eq_true_eq]
      by_cases hm : key a ∈ ks
      · simp [hm]
      · simp [hm]

end Upsert

/-! ## 3. A vector searched for an element -/

section Search

variable {α : Type u} {κ : Type v}

/-- Every element pushed two times. -/
def twice (as : List α) : List α := as.flatMap fun a => [a, a]

theorem twice_concat (as : List α) (a : α) : twice (as ++ [a]) = twice as ++ [a, a] := by
  simp [twice]

theorem length_twice (as : List α) : (twice as).length = 2 * as.length := by
  induction as with
  | nil => rfl
  | cons a as ih =>
      show (twice as).length + 1 + 1 = _
      rw [ih, List.length_cons]
      omega

theorem find?_twice (p : α → Bool) (as : List α) : (twice as).find? p = as.find? p := by
  induction as with
  | nil => rfl
  | cons a as ih =>
      show (a :: a :: twice as).find? p = _
      cases h : p a <;> simp [h, ih]

theorem take_twice (n : Nat) (as : List α) : (twice as).take (2 * n) = twice (as.take n) := by
  induction as generalizing n with
  | nil => simp [twice]
  | cons a as ih =>
      cases n with
      | zero => simp [twice]
      | succ n =>
          show (a :: a :: twice as).take (2 * n + 1 + 1) = a :: a :: twice (as.take n)
          rw [List.take_succ_cons, List.take_succ_cons, ih]

/-- One element more at the end, seen by index. -/
theorem getElem?_concat {as : List α} {a b : α} {k : Nat}
    (h : (as ++ [a])[k]? = some b) : as[k]? = some b ∨ (k = as.length ∧ b = a) := by
  rcases Nat.lt_or_ge k as.length with hk | hk
  · rw [List.getElem?_append_left hk] at h
    exact Or.inl h
  · rw [List.getElem?_append_right hk, List.getElem?_singleton] at h
    split_ifs at h with h0
    exact Or.inr ⟨by omega, (Option.some.inj h).symm⟩

/-- One pair more at the end of two lists of one length: what relates the k-th pair to the elements
    before it goes on doing so if it does for the new pair. -/
theorem pairs_concat {β : Type*} {R : List α → α → β → Prop} {as : List α} {bs : List β} {a : α}
    {b : β} (hlen : bs.length = as.length)
    (h : ∀ k x y, as[k]? = some x → bs[k]? = some y → R (as.take k) x y) (hnew : R as a b)
    (k : Nat) (x : α) (y : β) (hx : (as ++ [a])[k]? = some x) (hy : (bs ++ [b])[k]? = some y) :
    R ((as ++ [a]).take k) x y := by
  rcases getElem?_concat hx with hx | ⟨hk, rfl⟩
  · have hk := (List.getElem?_eq_some_iff.mp hx).1
    rw [List.getElem?_append_left (hlen ▸ hk)] at hy
    rw [List.take_append_of_le_length hk.le]
    exact h k x y hx hy
  · subst hk
    rw [← hlen, List.getElem?_concat_length] at hy
    rw [List.take_left, ← Option.some.inj hy]
    exact hnew

/-- Keys that are not distinct have a first one that was there before. -/
theorem exists_first_repeat [DecidableEq κ] {key : α → κ} {as : List α}
    (h : ¬ (as.map key).Nodup) :
    ∃ pre a post, as = pre ++ a :: post ∧ (pre.map key).Nodup ∧ key a ∈ pre.map key := by
  induction as using List.reverseRecOn with
  | nil => exact absurd List.nodup_nil h
  | append_singleton as a ih =>
      by_cases has : (as.map key).Nodup
      · refine ⟨as, a, [], rfl, has, ?_⟩
        by_contra hnew
        refine h ?_
        rw [List.map_append, List.map_singleton]
        exact has.append (List.nodup_singleton _) (List.disjoint_singleton.mpr hnew)
      · obtain ⟨pre, b, post, rfl, hpre, hb⟩ := ih has
        exact ⟨pre, b, post ++ [a], by simp, hpre, hb⟩

/-- Among distinct keys, the search for the key of the `k`-th element finds that element. -/
theorem find?_eq_getElem? [DecidableEq κ] {key : α → κ} {as : List α} (h : (as.map key).Nodup)
    {k : Nat} {a : α} (ha : as[k]? = some a) : (as.find? fun b => key b = key a) = some a := by
  induction as generalizing k with
  | nil => cases ha
  | cons b as ih =>
      rw [List.map_cons, List.nodup_cons] at h
      cases k with
      | zero =>
          obtain rfl : b = a := by simpa using ha
          simp
      | succ k =>
          rw [List.getElem?_cons_succ] at ha
          have hne : key b ≠ key a := fun e =>
            h.1 (e ▸ List.mem_map_of_mem (List.mem_of_getElem? ha))
          rw [List.find?_cons_of_neg (by simpa using hne)]
          exact ih h.2 ha

end Search

end Cxx
