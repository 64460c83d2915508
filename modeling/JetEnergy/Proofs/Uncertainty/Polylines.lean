import Mathlib
import JetEnergy.Proofs.Uncertainty.Segments

/-!
  Bands over exact numbers.

  * `polyline`: the value of the first node with the `rise` of every segment, each
    of which grows along its segment only.  It is continuous, and it follows the
    values at the nodes up or down.
  * `polyline_of_segment`: between two neighbouring nodes it is the line through
    them.
  * `band_is_polyline`: the band of ascending nodes is the polyline through them, for
    the lower and for the upper values.
-/
namespace JetEnergy.Uncertainty

/-! ## Lines -/

theorem lineAt_start {a b : ℚ} (va vb : ℚ) : lineAt a a va b vb = va := by
  rw [lineAt, sub_self, mul_zero, add_zero]

theorem lineAt_end {a b : ℚ} (h : a < b) (va vb : ℚ) : lineAt b a va b vb = vb := by
  rw [lineAt, div_mul_cancel₀ _ (sub_ne_zero_of_ne h.ne'), add_sub_cancel]

/-- On its segment a line stays between the values at the ends. -/
theorem lineAt_mem_uIcc {a b pt : ℚ} (h : a < b) (hpt : pt ∈ Set.Icc a b) (va vb : ℚ) :
    lineAt pt a va b vb ∈ Set.uIcc va vb := by
  -- the value divides the range of values as the momentum divides the segment
  have hwidth : 0 < b - a := sub_pos_of_lt h
  have hshare : (pt - a) / (b - a) ∈ Set.Icc (0 : ℚ) 1 :=
    ⟨div_nonneg (sub_nonneg_of_le hpt.1) hwidth.le,
      (div_le_one hwidth).2 (sub_le_sub_right hpt.2 a)⟩
  have hline : lineAt pt a va b vb = va + (pt - a) / (b - a) * (vb - va) := by
    rw [lineAt]; ring
  rw [hline, ← segment_eq_uIcc, segment_eq_image']
  exact ⟨_, hshare, rfl⟩

/-! ## Rises -/

section
variable (y : Node ℚ → ℚ)

/-- How far the line of a segment has risen at a momentum: not at all before the
    segment, and no further behind it. -/
def rise (pt : ℚ) (s : Node ℚ × Node ℚ) : ℚ :=
  (y s.2 - y s.1) / (s.2.pt - s.1.pt) * (min (max pt s.1.pt) s.2.pt - s.1.pt)

theorem rise_before {s : Node ℚ × Node ℚ} (h : s.1.pt < s.2.pt) {pt : ℚ} (hpt : pt ≤ s.1.pt) :
    rise y pt s = 0 := by
  rw [rise, max_eq_right hpt, min_eq_left h.le, sub_self, mul_zero]

theorem rise_within {s : Node ℚ × Node ℚ} {pt : ℚ} (hpt : pt ∈ Set.Icc s.1.pt s.2.pt) :
    y s.1 + rise y pt s = lineAt pt s.1.pt (y s.1) s.2.pt (y s.2) := by
  rw [rise, max_eq_left hpt.1, min_eq_left hpt.2, lineAt]

theorem rise_after {s : Node ℚ × Node ℚ} (h : s.1.pt < s.2.pt) {pt : ℚ} (hpt : s.2.pt ≤ pt) :
    rise y pt s = y s.2 - y s.1 := by
  rw [rise, max_eq_left (h.le.trans hpt), min_eq_right hpt,
    div_mul_cancel₀ _ (sub_ne_zero_of_ne h.ne')]

theorem continuous_rise (s : Node ℚ × Node ℚ) : Continuous fun pt => rise y pt s := by
  unfold rise
  fun_prop

/-- A line rises where the value at its end is the greater one. -/
theorem monotone_rise {s : Node ℚ × Node ℚ} (h : s.1.pt < s.2.pt) (hy : y s.1 ≤ y s.2) :
    Monotone fun pt => rise y pt s := by
  intro p q hpq
  have hslope : 0 ≤ (y s.2 - y s.1) / (s.2.pt - s.1.pt) :=
    div_nonneg (sub_nonneg_of_le hy) (sub_pos_of_lt h).le
  refine mul_le_mul_of_nonneg_left (sub_le_sub_right ?_ _) hslope
  exact min_le_min_right _ (max_le_max_right _ hpq)

/-! ## Polylines -/

/-- The value of the first node with the rises of all segments. -/
def polyline (first : Node ℚ) (rest : List (Node ℚ)) (pt : ℚ) : ℚ :=
  y first + ((segments (first :: rest)).map (rise y pt)).sum

theorem polyline_cons (a b : Node ℚ) (rest : List (Node ℚ)) (pt : ℚ) :
    polyline y a (b :: rest) pt = y a + rise y pt (a, b) - y b + polyline y b rest pt := by
  rw [polyline, polyline, segments_cons_cons, List.map_cons, List.sum_cons]
  ring

theorem polyline_neg (first : Node ℚ) (rest : List (Node ℚ)) (pt : ℚ) :
    polyline (fun n => -y n) first rest pt = -polyline y first rest pt := by
  induction rest generalizing first with
  | nil => rw [polyline, polyline]; exact (add_zero _).trans (congrArg Neg.neg (add_zero _).symm)
  | cons b rest ih =>
    rw [polyline_cons, polyline_cons, ih, rise, rise]
    ring

theorem continuous_polyline (first : Node ℚ) (rest : List (Node ℚ)) :
    Continuous (polyline y first rest) := by
  induction rest generalizing first with
  | nil =>
    have hconst : polyline y first [] = fun _ => y first + 0 := rfl
    rw [hconst]
    exact continuous_const
  | cons b rest ih =>
    rw [show polyline y first (b :: rest) = _ from funext (polyline_cons y first b rest)]
    exact ((continuous_const.add (continuous_rise y _)).sub continuous_const).add (ih b)

variable {first : Node ℚ} {rest : List (Node ℚ)} (h : Ascending (first :: rest))
include h

theorem Ascending.of_cons : Ascending rest :=
  List.Pairwise.of_cons h

theorem Ascending.segment_lt {s : Node ℚ × Node ℚ} (hs : s ∈ segments (first :: rest)) :
    first.pt ≤ s.1.pt ∧ s.1.pt < s.2.pt := by
  induction rest generalizing first with
  | nil => cases hs
  | cons b rest ih =>
    have hab := List.rel_of_pairwise_cons h (List.mem_cons_self ..)
    rw [segments_cons_cons] at hs
    rcases List.mem_cons.1 hs with rfl | hs
    · exact ⟨le_rfl, hab⟩
    · obtain ⟨hstart, hlt⟩ := ih h.of_cons hs
      exact ⟨hab.le.trans hstart, hlt⟩

/-- Before the first node there is no rise. -/
theorem polyline_before {pt : ℚ} (hpt : pt ≤ first.pt) : polyline y first rest pt = y first := by
  have hzero : (segments (first :: rest)).map (rise y pt) =
      (segments (first :: rest)).map fun _ => 0 := by
    refine List.map_congr_left fun s hs => ?_
    obtain ⟨hstart, hlt⟩ := h.segment_lt hs
    exact rise_before y hlt (hpt.trans hstart)
  rw [polyline, hzero, List.sum_map_zero, add_zero]

/-- From the last node on the rises add up to its value. -/
theorem polyline_after {last : Node ℚ} (hlast : (first :: rest).getLast? = some last) {pt : ℚ}
    (hpt : last.pt ≤ pt) : polyline y first rest pt = y last := by
  induction rest generalizing first with
  | nil => cases hlast; rw [polyline]; exact add_zero _
  | cons b rest ih =>
    have hab := List.rel_of_pairwise_cons h (List.mem_cons_self ..)
    have hlast' : (b :: rest).getLast? = some last := by rwa [List.getLast?_cons_cons] at hlast
    have hb : b.pt ≤ last.pt := by
      rcases List.mem_cons.1 (List.mem_of_getLast? hlast') with rfl | hmem
      · exact le_rfl
      · exact (List.rel_of_pairwise_cons h.of_cons hmem).le
    rw [polyline_cons, rise_after y hab (hb.trans hpt), ih h.of_cons hlast']
    ring

/-- Between two neighbours it is the line through them. -/
theorem polyline_of_segment {s : Node ℚ × Node ℚ} (hs : s ∈ segments (first :: rest)) {pt : ℚ}
    (hpt : pt ∈ Set.Icc s.1.pt s.2.pt) :
    polyline y first rest pt = lineAt pt s.1.pt (y s.1) s.2.pt (y s.2) := by
  induction rest generalizing first with
  | nil => cases hs
  | cons b rest ih =>
    have hab := List.rel_of_pairwise_cons h (List.mem_cons_self ..)
    rw [segments_cons_cons] at hs
    rcases List.mem_cons.1 hs with rfl | hs
    · rw [polyline_cons, polyline_before y h.of_cons hpt.2, ← rise_within y hpt]
      ring
    · have hstart := (h.of_cons.segment_lt hs).1
      rw [polyline_cons, rise_after y hab (hstart.trans hpt.1), ih h.of_cons hs]
      ring

/-- Values that go up from node to node give a polyline that goes up. -/
theorem monotone_polyline (hy : (first :: rest).Pairwise fun a b => y a ≤ y b) :
    Monotone (polyline y first rest) := by
  intro p q hpq
  induction rest generalizing first with
  | nil => exact le_rfl
  | cons b rest ih =>
    have hab := List.rel_of_pairwise_cons h (List.mem_cons_self ..)
    have hyab : y first ≤ y b := List.rel_of_pairwise_cons hy (List.mem_cons_self ..)
    have hrise : rise y p (first, b) ≤ rise y q (first, b) := monotone_rise y hab hyab hpq
    have hrest := ih h.of_cons hy.of_cons
    rw [polyline_cons, polyline_cons]
    linarith

/-- Values that go down give a polyline that goes down. -/
theorem antitone_polyline (hy : (first :: rest).Pairwise fun a b => y b ≤ y a) :
    Antitone (polyline y first rest) := by
  have hmono : Monotone (polyline (fun n => -y n) first rest) :=
    monotone_polyline _ h (hy.imp neg_le_neg)
  intro p q hpq
  have hneg := hmono hpq
  rw [polyline_neg, polyline_neg] at hneg
  exact neg_le_neg_iff.1 hneg

end

/-! ## Bands -/

/-- What makes a function of the momentum the line through the values `y` of some
    nodes, held constant outside them. -/
structure Joins (nodes : List (Node ℚ)) (y : Node ℚ → ℚ) (f : ℚ → ℚ) : Prop where
  before : ∀ first, nodes.head? = some first → ∀ pt ≤ first.pt, f pt = y first
  after : ∀ last, nodes.getLast? = some last → ∀ pt ≥ last.pt, f pt = y last
  /-- a segment has a width to divide by, the function follows its line, both ends
      included, and stays between the values there -/
  within : ∀ (i : Nat) (h : i + 1 < nodes.length), nodes[i + 1].pt - nodes[i].pt ≠ 0 ∧
    ∀ pt ∈ Set.Icc nodes[i].pt nodes[i + 1].pt,
      f pt = lineAt pt nodes[i].pt (y nodes[i]) nodes[i + 1].pt (y nodes[i + 1]) ∧
      f pt ∈ Set.uIcc (y nodes[i]) (y nodes[i + 1])
  /-- at a node the pieces on either side meet -/
  meets : ∀ (i : Nat) (h : i + 1 < nodes.length),
    lineAt nodes[i].pt nodes[i].pt (y nodes[i]) nodes[i + 1].pt (y nodes[i + 1]) = y nodes[i] ∧
    lineAt nodes[i + 1].pt nodes[i].pt (y nodes[i]) nodes[i + 1].pt (y nodes[i + 1]) =
      y nodes[i + 1]
  atNode : ∀ n ∈ nodes, f n.pt = y n
  continuous : Continuous f
  monotone : (nodes.Pairwise fun a b => y a ≤ y b) → Monotone f
  antitone : (nodes.Pairwise fun a b => y b ≤ y a) → Antitone f

section
variable {first : Node ℚ} {rest : List (Node ℚ)} (h : Ascending (first :: rest))
include h

/-- At a node the polyline has the value there. -/
theorem polyline_atNode (y : Node ℚ → ℚ) {n : Node ℚ} (hn : n ∈ first :: rest) :
    polyline y first rest n.pt = y n := by
  induction rest generalizing first with
  | nil => rw [List.mem_singleton.1 hn]; exact polyline_before y (List.pairwise_singleton ..) le_rfl
  | cons b rest ih =>
    rcases List.mem_cons.1 hn with rfl | hn
    · exact polyline_before y h le_rfl
    · have hab := List.rel_of_pairwise_cons h (List.mem_cons_self ..)
      have hb : b.pt ≤ n.pt := by
        rcases List.mem_cons.1 hn with rfl | hmem
        · exact le_rfl
        · exact (List.rel_of_pairwise_cons h.of_cons hmem).le
      rw [polyline_cons, rise_after y hab hb, ih h.of_cons hn]
      ring

theorem polyline_joins (y : Node ℚ → ℚ) : Joins (first :: rest) y (polyline y first rest) where
  before := by rintro _ ⟨⟩ pt hpt; exact polyline_before y h hpt
  after := fun last hlast pt hpt => polyline_after y h hlast hpt
  within := by
    intro i hi
    have hi' : i < (segments (first :: rest)).length := by rw [length_segments]; omega
    have hs := getElem_segments hi' hi ▸ List.getElem_mem hi'
    obtain ⟨-, hlt⟩ := h.segment_lt hs
    refine ⟨sub_ne_zero_of_ne hlt.ne', fun pt hpt => ?_⟩
    rw [polyline_of_segment y h hs hpt]
    exact ⟨rfl, lineAt_mem_uIcc hlt hpt _ _⟩
  meets := by
    intro i hi
    have hlt := List.pairwise_iff_getElem.1 h i (i + 1) (Nat.lt_of_succ_lt hi) hi i.lt_succ_self
    exact ⟨lineAt_start _ _, lineAt_end hlt _ _⟩
  atNode := fun n hn => polyline_atNode h y hn
  continuous := continuous_polyline y first rest
  monotone := monotone_polyline y h
  antitone := antitone_polyline y h

/-- The search for a band takes the pieces of the polyline. -/
theorem bandAt_eq_polyline (pt : ℚ) : bandAt (first :: rest) pt =
    .ok (.band ⟨polyline (·.low) first rest pt, polyline (·.high) first rest pt⟩) := by
  obtain ⟨last, hlast⟩ : ∃ last, (first :: rest).getLast? = some last :=
    ⟨_, List.getLast?_eq_some_getLast (List.cons_ne_nil first rest)⟩
  by_cases hbefore : pt < first.pt
  · rw [bandAt_of_lt rfl hlast hbefore, polyline_before _ h hbefore.le,
      polyline_before _ h hbefore.le]
  by_cases hafter : last.pt ≤ pt
  · rw [bandAt_of_le rfl hlast hbefore hafter, polyline_after _ h hlast hafter,
      polyline_after _ h hlast hafter]
  -- some segment holds the momentum, and the search finds one
  obtain ⟨s, hs, hstart, hend⟩ := exists_segment (p := fun n : Node ℚ => n.pt ≤ pt) rfl hlast
    (le_of_not_gt hbefore) hafter
  have hsome : ((segments (first :: rest)).find? (inSegment pt)).isSome :=
    List.find?_isSome.2 ⟨s, hs, by simp [inSegment, hstart, lt_of_not_ge hend]⟩
  obtain ⟨t, ht⟩ := Option.isSome_iff_exists.1 hsome
  have hmem := List.mem_of_find?_eq_some ht
  have hholds : t.1.pt ≤ pt ∧ pt < t.2.pt := by
    simpa [inSegment] using List.find?_some ht
  have hpt : pt ∈ Set.Icc t.1.pt t.2.pt := ⟨hholds.1, hholds.2.le⟩
  rw [bandAt_of_find? rfl hlast hbefore hafter ht, polyline_of_segment _ h hmem hpt,
    polyline_of_segment _ h hmem hpt]
  rfl

end

/-- **The band of ascending nodes over exact numbers.**  At every momentum there is
    one. Its lower and its upper value are each the continuous function that joins
    the values at the nodes by straight lines and is constant outside them: it has
    those values at the nodes, from either side, stays between those of two
    neighbours, and goes up or down where they do. No segment has the width zero. -/
theorem band_is_polyline {nodes : List (Node ℚ)} (hne : nodes ≠ []) (h : Ascending nodes) :
    ∃ low high : ℚ → ℚ, (∀ pt, bandAt nodes pt = .ok (.band ⟨low pt, high pt⟩)) ∧
      Joins nodes (·.low) low ∧ Joins nodes (·.high) high := by
  obtain ⟨first, rest, rfl⟩ := List.exists_cons_of_ne_nil hne
  exact ⟨_, _, bandAt_eq_polyline h, polyline_joins h _, polyline_joins h _⟩

/-- Three nodes: the lower values go up, the upper ones go up and down. -/
theorem band_is_polyline_three :
    ∃ nodes : List (Node ℚ), nodes ≠ [] ∧ Ascending nodes ∧ ∃ low high : ℚ → ℚ,
      (∀ pt, bandAt nodes pt = .ok (.band ⟨low pt, high pt⟩)) ∧ Monotone low ∧
      low 15 = 3 / 100 ∧ high 30 = 7 / 100 := by
  let nodes : List (Node ℚ) := [{ pt := 10, low := 2 / 100, high := 3 / 100 },
    { pt := 20, low := 4 / 100, high := 9 / 100 }, { pt := 40, low := 4 / 100, high := 5 / 100 }]
  have hne : nodes ≠ [] := List.cons_ne_nil _ _
  have hascending : Ascending nodes := by
    unfold Ascending
    decide +kernel
  obtain ⟨low, high, hband, hlow, hhigh⟩ := band_is_polyline hne hascending
  refine ⟨nodes, hne, hascending, low, high, hband, hlow.monotone (by decide +kernel), ?_, ?_⟩
  · rw [((hlow.within 0 (by decide)).2 15 (by decide +kernel)).1]
    decide +kernel
  · rw [((hhigh.within 1 (by decide)).2 30 (by decide +kernel)).1]
    decide +kernel

end JetEnergy.Uncertainty
