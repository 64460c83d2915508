import Mathlib.Data.List.Forall2
import JetEnergy.Failure

/-!
  Steps that can fail.

  * `map_ok_iff`, `bind_ok_iff`, `bind_error_iff` and their like: what steps give
    one after the other, and what they fail with. `exists_ok_iff`: when a step
    gives anything.
  * `mapM_ok_iff`, `mapM_error_iff`: what a step gives for a list, one element
    after the other.  `errorOf?_mapM`: the first failure counts.
  * `foldlM_invariant`: what every step of a fold keeps.
-/
namespace JetEnergy

section
variable {α β ε : Type}

theorem map_error_iff {x : Except ε α} {f : α → β} {e : ε} : x.map f = .error e ↔ x = .error e := by
  cases x <;> simp [Except.map]

theorem map_ok_iff {x : Except ε α} {f : α → β} {b : β} :
    x.map f = .ok b ↔ ∃ a, x = .ok a ∧ f a = b := by
  cases x <;> simp [Except.map]

theorem exists_map_iff {x : Except ε α} {f : α → β} :
    (∃ b, x.map f = .ok b) ↔ ∃ a, x = .ok a := by
  cases x <;> simp [Except.map]

theorem bind_ok_iff {x : Except ε α} {f : α → Except ε β} {b : β} :
    x >>= f = .ok b ↔ ∃ a, x = .ok a ∧ f a = .ok b := by
  cases x <;> simp [bind, Except.bind]

theorem bind_error_iff {x : Except ε α} {f : α → Except ε β} {e : ε} :
    x >>= f = .error e ↔ x = .error e ∨ ∃ a, x = .ok a ∧ f a = .error e := by
  cases x <;> simp [bind, Except.bind]

/-- What fails in one way only is there unless it fails in that way. -/
theorem exists_ok_iff {x : Except ε α} {e : ε} {p : Prop}
    (h : ∀ e', x = .error e' ↔ e' = e ∧ p) : (∃ a, x = .ok a) ↔ ¬ p := by
  cases x with
  | error e' => simp [((h e').1 rfl).2]
  | ok a =>
    have hp : ¬ p := fun hp => by cases (h e).2 ⟨rfl, hp⟩
    simp [hp]

theorem errorOf?_eq_some_iff {x : Except ε α} {e : ε} : errorOf? x = some e ↔ x = .error e := by
  cases x <;> simp [errorOf?]

/-! ## One element after the other -/

variable {f : α → Except ε β}

theorem mapM_ok_iff {as : List α} {bs : List β} :
    as.mapM f = .ok bs ↔ List.Forall₂ (fun a b => f a = .ok b) as bs := by
  induction as generalizing bs with
  | nil =>
    rw [List.mapM_nil, List.forall₂_nil_left_iff]
    exact ⟨fun h => by cases h; rfl, fun h => by rw [h]; rfl⟩
  | cons a as ih =>
    rw [List.mapM_cons, List.forall₂_cons_left_iff]
    constructor
    · intro h
      obtain ⟨b, ha, h⟩ := bind_ok_iff.1 h
      obtain ⟨rest, hrest, hlast⟩ := bind_ok_iff.1 h
      cases hlast
      exact ⟨b, rest, ha, ih.1 hrest, rfl⟩
    · rintro ⟨b, rest, ha, hrest, rfl⟩
      exact bind_ok_iff.2 ⟨b, ha, bind_ok_iff.2 ⟨rest, ih.2 hrest, rfl⟩⟩

theorem exists_mapM_iff {as : List α} :
    (∃ bs, as.mapM f = .ok bs) ↔ ∀ a ∈ as, ∃ b, f a = .ok b := by
  constructor
  · rintro ⟨bs, h⟩ a ha
    obtain ⟨i, hi, rfl⟩ := List.getElem_of_mem ha
    have hall := mapM_ok_iff.1 h
    exact ⟨_, hall.get hi (hall.length_eq ▸ hi)⟩
  · intro h
    induction as with
    | nil => exact ⟨[], rfl⟩
    | cons a as ih =>
      obtain ⟨⟨b, hb⟩, has⟩ := List.forall_mem_cons.1 h
      obtain ⟨bs, hbs⟩ := ih has
      exact ⟨b :: bs, mapM_ok_iff.2 (.cons hb (mapM_ok_iff.1 hbs))⟩

/-- The first failure is that of the whole. -/
theorem mapM_error_iff {as : List α} {e : ε} :
    as.mapM f = .error e ↔
      ∃ above a below, as = above ++ a :: below ∧ (∀ b ∈ above, ∃ c, f b = .ok c) ∧
        f a = .error e := by
  induction as with
  | nil =>
    rw [List.mapM_nil]
    constructor
    · intro h; cases h
    · rintro ⟨above, a, below, h, -⟩; cases above <;> cases h
  | cons a as ih =>
    rw [List.mapM_cons]
    constructor
    · intro h
      rcases bind_error_iff.1 h with ha | ⟨b, hb, h⟩
      · exact ⟨[], a, as, rfl, List.forall_mem_nil _, ha⟩
      · rcases bind_error_iff.1 h with hrest | ⟨bs, -, hlast⟩
        · obtain ⟨above, a', below, rfl, habove, ha'⟩ := ih.1 hrest
          exact ⟨a :: above, a', below, rfl, List.forall_mem_cons.2 ⟨⟨b, hb⟩, habove⟩, ha'⟩
        · cases hlast
    · rintro ⟨above, a', below, h, habove, ha'⟩
      cases above with
      | nil =>
        cases h
        exact bind_error_iff.2 (Or.inl ha')
      | cons first above =>
        cases h
        obtain ⟨⟨b, hb⟩, habove⟩ := List.forall_mem_cons.1 habove
        have hrest := ih.2 ⟨above, a', below, rfl, habove, ha'⟩
        exact bind_error_iff.2 (Or.inr ⟨b, hb, bind_error_iff.2 (Or.inl hrest)⟩)

/-- Of several steps, the first one that fails counts. -/
theorem errorOf?_mapM (f : α → Except ε β) (as : List α) :
    errorOf? (as.mapM f) = (as.filterMap fun a => errorOf? (f a)).head? := by
  induction as with
  | nil => rfl
  | cons a as ih =>
    rw [List.mapM_cons, List.filterMap_cons]
    cases f a with
    | error e => rfl
    | ok b =>
      refine Eq.trans ?_ ih
      cases as.mapM f <;> rfl

theorem mapM_flatten (f : α → Except ε β) (pieces : List (List α)) :
    pieces.flatten.mapM f = (pieces.mapM (List.mapM f)).map List.flatten := by
  induction pieces with
  | nil => rfl
  | cons piece pieces ih =>
    rw [List.flatten_cons, List.mapM_append, List.mapM_cons, ih]
    cases piece.mapM f with
    | error e => rfl
    | ok bs => cases pieces.mapM (List.mapM f) <;> rfl

theorem findM?_eq {p : α → Except ε Bool} {q : α → Bool} {l : List α}
    (h : ∀ a ∈ l, p a = .ok (q a)) : l.findM? p = .ok (l.find? q) := by
  induction l with
  | nil => rfl
  | cons a l ih =>
    obtain ⟨ha, hl⟩ := List.forall_mem_cons.1 h
    rw [List.findM?, List.find?, ha]
    simp only [bind, Except.bind]
    cases q a with
    | true => rfl
    | false => exact ih hl

/-- What every accepted step keeps holds of a whole fold. -/
theorem foldlM_invariant {σ : Type} {P : σ → Prop} {f : σ → α → Except ε σ} {l : List α}
    (hstep : ∀ s, P s → ∀ a ∈ l, ∀ s', f s a = .ok s' → P s') {s s' : σ} (hs : P s)
    (h : l.foldlM f s = .ok s') : P s' := by
  induction l generalizing s with
  | nil => cases h; exact hs
  | cons a l ih =>
    rw [List.foldlM_cons] at h
    obtain ⟨next, hf, hrest⟩ := bind_ok_iff.1 h
    exact ih (fun s hs a ha => hstep s hs a (List.mem_cons_of_mem _ ha))
      (hstep s hs a (List.mem_cons_self ..) next hf) hrest

end

end JetEnergy
