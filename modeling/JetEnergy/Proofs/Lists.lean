import Mathlib.Algebra.BigOperators.Group.List.Lemmas
import Mathlib.Algebra.Order.Ring.Nat
import Mathlib.Data.List.Forall2
import Mathlib.Data.List.InsertIdx

/-!
  Lists.

  * `eraseDups_spec`: `eraseDups` leaves each member once, in order. Counting
    members one by one counts them all.
  * `exists_last` cuts a list at its last element of a kind.
  * `pick` takes the elements at some positions. A list picked from its own
    positions, each once, is a permutation of it.
  * What `zip`, `zipIdx`, `zipWith` and `intercalate` do to related lists and to
    members.
-/
namespace JetEnergy

/-! ## Lists without repetitions -/

section
variable {α : Type} [DecidableEq α]

/-- Without repetitions a list keeps its order, and no element is there twice. -/
theorem eraseDups_spec (as : List α) : as.eraseDups.Sublist as ∧ as.eraseDups.Nodup := by
  induction hlength : as.length using Nat.strong_induction_on generalizing as with
  | _ n ih =>
    cases as with
    | nil => exact ⟨.slnil, List.nodup_nil⟩
    | cons a as =>
      have hshorter : (as.filter fun b => !b == a).length < n :=
        hlength ▸ Nat.lt_succ_of_le (List.length_filter_le ..)
      obtain ⟨hsublist, hnodup⟩ := ih _ hshorter _ rfl
      rw [List.eraseDups_cons, List.nodup_cons]
      refine ⟨(hsublist.trans List.filter_sublist).cons_cons a, fun ha => ?_, hnodup⟩
      simpa using List.mem_eraseDups.1 ha

/-- The members of a list, counted one by one. -/
theorem sum_count_of_nodup {keys as : List α} (hkeys : keys.Nodup) (h : ∀ a, a ∈ keys ↔ a ∈ as) :
    (keys.map as.count).sum = as.length := by
  have hperm : keys.Perm as.dedup :=
    (List.perm_ext_iff_of_nodup hkeys as.nodup_dedup).2 fun a => (h a).trans List.mem_dedup.symm
  rw [(hperm.map as.count).sum_eq]
  exact List.sum_map_count_dedup_eq_length as

end

/-! ## Cutting at a property -/

section
variable {α : Type} {p : α → Bool} {l : List α}

theorem takeWhile_eq_nil_of_dropWhile (h : l.dropWhile p = l) : l.takeWhile p = [] := by
  have hsplit := List.takeWhile_append_dropWhile (p := p) (l := l)
  rw [h] at hsplit
  exact List.append_left_eq_self.1 hsplit

theorem isEmpty_takeWhile (p : α → Bool) (l : List α) :
    (l.takeWhile p).isEmpty = !l.head?.any p := by
  cases l with
  | nil => rfl
  | cons a l =>
    rw [List.takeWhile_cons, List.head?_cons, Option.any_some]
    cases p a <;> rfl

theorem mem_dropWhile {a : α} (h : a ∈ l) (hp : p a = false) : a ∈ l.dropWhile p := by
  induction l with
  | nil => cases h
  | cons b l ih =>
    by_cases hb : p b
    · rw [List.dropWhile_cons_of_pos hb]
      rcases List.mem_cons.1 h with rfl | h
      · rw [hp] at hb; cases hb
      · exact ih h
    · rwa [List.dropWhile_cons_of_neg hb]

/-- The last element of a kind, if there is one. -/
theorem exists_last (p : α → Prop) (l : List α) :
    (∀ a ∈ l, ¬ p a) ∨ ∃ before a after, l = before ++ a :: after ∧ p a ∧ ∀ b ∈ after, ¬ p b := by
  induction l with
  | nil => exact Or.inl (by simp)
  | cons a l ih =>
    rcases ih with hno | ⟨before, b, after, rfl, hb, hafter⟩
    · by_cases ha : p a
      · exact Or.inr ⟨[], a, l, rfl, ha, hno⟩
      · exact Or.inl (List.forall_mem_cons.2 ⟨ha, hno⟩)
    · exact Or.inr ⟨a :: before, b, after, rfl, hb, hafter⟩

end

/-! ## Elements in other places -/

/-- The elements at some positions, in the order of the positions. -/
def pick {α : Type} (order : List Nat) (as : List α) : List α :=
  order.filterMap (as[·]?)

section
variable {α β : Type}

theorem map_pick (f : α → β) (order : List Nat) (as : List α) :
    (pick order as).map f = pick order (as.map f) := by
  simp only [pick, List.map_filterMap, List.getElem?_map]

theorem pick_zip {a : List α} {b : List β} (h : a.length = b.length) (order : List Nat) :
    pick order (a.zip b) = (pick order a).zip (pick order b) := by
  induction order with
  | nil => rfl
  | cons i order ih =>
    by_cases hi : i < a.length
    · have hzip : (a.zip b)[i]? = some (a[i], b[i]) :=
        List.getElem?_zip_eq_some.2 ⟨List.getElem?_eq_getElem hi, List.getElem?_eq_getElem (h ▸ hi)⟩
      simp only [pick, List.filterMap_cons, hzip, List.getElem?_eq_getElem hi,
        List.getElem?_eq_getElem (h ▸ hi : i < b.length), List.zip_cons_cons] at ih ⊢
      rw [ih]
    · have hle : a.length ≤ i := Nat.not_lt.1 hi
      have hzip : (a.zip b)[i]? = none := List.getElem?_eq_none (by rw [List.length_zip]; omega)
      simpa only [pick, List.filterMap_cons, hzip, List.getElem?_eq_none hle,
        List.getElem?_eq_none (h ▸ hle : b.length ≤ i)] using ih

theorem pick_range (as : List α) (n : Nat) : pick (List.range n) as = as.take n := by
  induction n with
  | zero => rfl
  | succ n ih =>
    have hlast : pick [n] as = as[n]?.toList := by
      rw [pick, List.filterMap_cons]
      cases as[n]? <;> rfl
    rw [pick, List.range_succ, List.filterMap_append, ← pick, ← pick, ih, hlast, List.take_add_one]

/-- Elements that are picked once each are the same elements in another order. -/
theorem perm_pick {order : List Nat} {as : List α}
    (h : order.Perm (List.range as.length)) : (pick order as).Perm as := by
  have hall := h.filterMap (as[·]?)
  rwa [← pick, ← pick, pick_range, List.take_length] at hall

theorem zip_insertIdx (a : List α) (b : List β) (h : a.length = b.length) (i : Nat) (x : α)
    (y : β) : (a.insertIdx i x).zip (b.insertIdx i y) = (a.zip b).insertIdx i (x, y) := by
  induction i generalizing a b with
  | zero => rfl
  | succ i ih =>
    match a, b with
    | [], [] => rfl
    | _ :: a, _ :: b => simpa using ih a b (Nat.succ.inj h)

end

/-! ## Related lists -/

theorem forall₂_map {α β : Type} (f : α → β) (l : List α) :
    List.Forall₂ (fun a b => b = f a) l (l.map f) := by
  rw [List.forall₂_map_right_iff, List.forall₂_same]
  exact fun _ _ => rfl

theorem exists_append_of_forall₂ {α : Type} {R : α → α → Prop} {l r xs : List α}
    (h : List.Forall₂ R (l ++ r) xs) :
    ∃ l' r', xs = l' ++ r' ∧ List.Forall₂ R l l' ∧ List.Forall₂ R r r' := by
  induction l generalizing xs with
  | nil => exact ⟨[], xs, rfl, .nil, h⟩
  | cons a l ih =>
    obtain ⟨b, ys, hab, hrest, rfl⟩ := List.forall₂_cons_left_iff.1 h
    obtain ⟨l', r', rfl, hl, hr⟩ := ih hrest
    exact ⟨b :: l', r', rfl, .cons hab hl, hr⟩

theorem forall₂_zipWith {α β : Type} {R : α → α → Prop} {f : β → α → α} {as : List α}
    (h : ∀ a ∈ as, ∀ b, R a (f b a)) {bs : List β} (hlength : bs.length = as.length) :
    List.Forall₂ R as (List.zipWith f bs as) := by
  induction as generalizing bs with
  | nil => rw [List.zipWith_nil_right]; exact .nil
  | cons a as ih =>
    match bs with
    | b :: bs =>
      exact .cons (h a (List.mem_cons_self ..) b)
        (ih (fun a ha => h a (List.mem_cons_of_mem _ ha)) (Nat.succ.inj hlength))

theorem map_zipIdx_congr {α β γ : Type} {f : α → Nat → γ} {g : β → Nat → γ} {as : List α}
    {bs : List β} (h : List.Forall₂ (fun a b => ∀ n, f a n = g b n) as bs) (start : Nat) :
    ((as.zipIdx start).map fun (a, n) => f a n) = (bs.zipIdx start).map fun (b, n) => g b n := by
  induction h generalizing start with
  | nil => rfl
  | cons hab _ ih => simp only [List.zipIdx_cons, List.map_cons, hab, ih]

/-! ## Separators -/

theorem mem_intercalate {α : Type} {sep x : α} {ls : List (List α)}
    (h : x ∈ [sep].intercalate ls) : x = sep ∨ ∃ l ∈ ls, x ∈ l := by
  induction ls with
  | nil => cases h
  | cons l ls ih =>
    cases ls with
    | nil => exact Or.inr ⟨l, List.mem_cons_self .., by simpa using h⟩
    | cons l' ls =>
      rw [List.intercalate_cons_cons, List.append_assoc, List.mem_append, List.singleton_append,
        List.mem_cons] at h
      rcases h with h | h | h
      · exact Or.inr ⟨l, List.mem_cons_self .., h⟩
      · exact Or.inl h
      · exact (ih h).imp_right fun ⟨l, hl, hx⟩ => ⟨l, List.mem_cons_of_mem _ hl, hx⟩

end JetEnergy
