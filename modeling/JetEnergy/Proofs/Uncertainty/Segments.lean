import JetEnergy.Proofs.Uncertainty.Bands

/-!
  The segment that holds a momentum.

  * `exists_segment`: nodes that start at a momentum or below it and end above it
    have a segment from one side to the other, in whatever order they stand.
  * `Holds` is what `inSegment` decides, for the segment at a position.
    `find?_segments_eq_some_iff`: the search ends at the first one that holds the
    momentum.  `exists_find?_segments`: between the ends there is one.
  * `band_of_segment` says for nodes and a momentum that are numbers which band the
    search gives; it never falls back on the first segment.
-/
namespace JetEnergy.Uncertainty

open TableFile

/-! ## Segments by position -/

section
variable {α : Type}

theorem segments_cons_cons (a b : Node α) (rest : List (Node α)) :
    segments (a :: b :: rest) = (a, b) :: segments (b :: rest) :=
  rfl

theorem length_segments (nodes : List (Node α)) : (segments nodes).length = nodes.length - 1 := by
  rw [segments, List.length_zip, List.length_tail]
  omega

theorem getElem_segments {nodes : List (Node α)} {i : Nat} (h : i < (segments nodes).length)
    (h' : i + 1 < nodes.length) : (segments nodes)[i] = (nodes[i], nodes[i + 1]) := by
  simp only [segments, List.getElem_zip, List.getElem_tail]

/-- Where something holds of the first node and not of the last one, it stops
    holding on a segment. -/
theorem exists_segment {p : Node α → Prop} {nodes : List (Node α)} {first last : Node α}
    (hfirst : nodes.head? = some first) (hlast : nodes.getLast? = some last) (hp : p first)
    (hnot : ¬ p last) : ∃ s ∈ segments nodes, p s.1 ∧ ¬ p s.2 := by
  induction nodes generalizing first with
  | nil => cases hfirst
  | cons a rest ih =>
    cases hfirst
    cases rest with
    | nil => cases hlast; exact absurd hp hnot
    | cons b rest =>
      rw [segments_cons_cons]
      by_cases hb : p b
      · obtain ⟨s, hs, hcross⟩ := ih rfl hlast hb
        exact ⟨s, List.mem_cons_of_mem _ hs, hcross⟩
      · exact ⟨(a, b), List.mem_cons_self .., hp, hb⟩

variable [LT α] [LE α]

/-- The node number `i` is at a momentum or below it, and the next one above
    it. -/
def Holds (nodes : List (Node α)) (pt : α) (i : Nat) : Prop :=
  ∃ h : i + 1 < nodes.length, nodes[i].pt ≤ pt ∧ pt < nodes[i + 1].pt

variable [DecidableLT α] [DecidableLE α]

theorem inSegment_iff {nodes : List (Node α)} {pt : α} {i : Nat} (h : i + 1 < nodes.length) :
    inSegment pt (nodes[i], nodes[i + 1]) = true ↔ Holds nodes pt i := by
  simp [inSegment, Holds, h]

/-- The search ends at the first segment that holds the momentum. -/
theorem find?_segments_eq_some_iff {nodes : List (Node α)} {pt : α} {s : Node α × Node α} :
    (segments nodes).find? (inSegment pt) = some s ↔
      ∃ (i : Nat) (h : i + 1 < nodes.length), s = (nodes[i], nodes[i + 1]) ∧ Holds nodes pt i ∧
        ∀ j < i, ¬ Holds nodes pt j := by
  rw [List.find?_eq_some_iff_getElem]
  constructor
  · rintro ⟨hs, i, hi, rfl, hbefore⟩
    have hi' : i + 1 < nodes.length := by rw [length_segments] at hi; omega
    rw [getElem_segments hi hi'] at hs ⊢
    refine ⟨i, hi', rfl, (inSegment_iff hi').1 hs, fun j hj hholds => ?_⟩
    have hno := hbefore j hj
    have hj' : j + 1 < nodes.length := by omega
    rw [getElem_segments (by rw [length_segments]; omega) hj', (inSegment_iff hj').2 hholds] at hno
    cases hno
  · rintro ⟨i, hi', rfl, hholds, hbefore⟩
    have hi : i < (segments nodes).length := by rw [length_segments]; omega
    refine ⟨(inSegment_iff hi').2 hholds, i, hi, getElem_segments hi hi', fun j hj => ?_⟩
    have hj' : j + 1 < nodes.length := by omega
    rw [getElem_segments (by rw [length_segments]; omega) hj', Bool.not_eq_true', Bool.eq_false_iff]
    exact mt (inSegment_iff hj').1 (hbefore j hj)

/-! ## Bands by cases -/

section
variable [Add α] [Sub α] [Mul α] [Div α] {nodes : List (Node α)} {pt : α} {first last : Node α}
  (hfirst : nodes.head? = some first) (hlast : nodes.getLast? = some last)
include hfirst hlast

theorem bandAt_of_lt (h : pt < first.pt) : bandAt nodes pt = .ok (.band first.toBand) := by
  rw [bandAt, hfirst, hlast]
  exact if_pos h

theorem bandAt_of_le (h : ¬ pt < first.pt) (hle : last.pt ≤ pt) :
    bandAt nodes pt = .ok (.band last.toBand) := by
  rw [bandAt, hfirst, hlast]
  exact (if_neg h).trans (if_pos hle)

theorem bandAt_of_find? (h : ¬ pt < first.pt) (hle : ¬ last.pt ≤ pt) {s : Node α × Node α}
    (hs : (segments nodes).find? (inSegment pt) = some s) :
    bandAt nodes pt = .ok (.band (onSegment pt s)) := by
  rw [bandAt, hfirst, hlast, segment?, hs]
  exact (if_neg h).trans (if_neg hle)

end

end

/-- Nodes at ascending momenta. -/
def Ascending {α : Type} [LT α] (nodes : List (Node α)) : Prop :=
  nodes.Pairwise fun a b => a.pt < b.pt

/-! ## Nodes at numbers -/

section
variable {nodes : List (Node Float)} {pt : Float}

theorem Holds.lt {i : Nat} (h : Holds nodes pt i) :
    ∃ hi : i + 1 < nodes.length, nodes[i].pt < nodes[i + 1].pt :=
  h.imp fun _ ⟨hstart, hend⟩ => Decimal.lt_of_le_of_lt hstart hend

/-- Of ascending nodes at most one segment holds a momentum. -/
theorem Ascending.holds_unique (h : Ascending nodes) {i j : Nat} (hi : Holds nodes pt i)
    (hj : Holds nodes pt j) : i = j := by
  have hno : ∀ {i j : Nat}, i < j → Holds nodes pt i → ¬ Holds nodes pt j := by
    rintro i j hlt ⟨hi, -, hend⟩ ⟨hj, hstart, -⟩
    have hpt : pt < nodes[j].pt := by
      rcases Nat.lt_or_eq_of_le (Nat.succ_le_of_lt hlt) with hnext | rfl
      · have hnodes := List.pairwise_iff_getElem.1 h (i + 1) j hi (Nat.lt_of_succ_lt hj) hnext
        exact Decimal.lt_of_lt_of_le hend (Decimal.le_of_lt hnodes)
      · exact hend
    exact Decimal.lt_irrefl pt (Decimal.lt_of_lt_of_le hpt hstart)
  rcases Nat.lt_trichotomy i j with hlt | heq | hgt
  · exact absurd hj (hno hlt hi)
  · exact heq
  · exact absurd hi (hno hgt hj)

/-- At a node of ascending nodes the segment that starts there holds. -/
theorem Ascending.holds_at (h : Ascending nodes) {k : Nat} (hk : k + 1 < nodes.length)
    (hpt : (pt == nodes[k].pt) = true) : Holds nodes pt k := by
  obtain ⟨hle, hge⟩ := Decimal.le_of_beq hpt
  have hnext := List.pairwise_iff_getElem.1 h k (k + 1) (Nat.lt_of_succ_lt hk) hk
    (Nat.lt_succ_self k)
  exact ⟨hk, hge, Decimal.lt_of_le_of_lt hle hnext⟩

variable {first last : Node Float} (hfirst : nodes.head? = some first)
  (hlast : nodes.getLast? = some last)
include hfirst hlast

/-- A segment that holds a momentum stands between the ends of ascending
    nodes. -/
theorem Ascending.between (h : Ascending nodes) {i : Nat} (hi : Holds nodes pt i) :
    ¬ pt < first.pt ∧ ¬ last.pt ≤ pt := by
  obtain ⟨hi, hstart, hend⟩ := hi
  rw [List.head?_eq_getElem?, List.getElem?_eq_some_iff] at hfirst
  rw [List.getLast?_eq_getElem?, List.getElem?_eq_some_iff] at hlast
  obtain ⟨hzero, rfl⟩ := hfirst
  obtain ⟨hlength, rfl⟩ := hlast
  constructor
  · intro hlt
    rcases Nat.eq_zero_or_pos i with rfl | hpos
    · exact Decimal.not_lt_of_le hstart hlt
    · have hnodes := List.pairwise_iff_getElem.1 h 0 i hzero (Nat.lt_of_succ_lt hi) hpos
      exact Decimal.not_lt_of_le hstart (Decimal.lt_of_lt_of_le hlt (Decimal.le_of_lt hnodes))
  · intro hle
    rcases Nat.lt_or_eq_of_le (Nat.le_sub_one_of_lt hi) with hlt | heq
    · have hnodes := List.pairwise_iff_getElem.1 h (i + 1) (nodes.length - 1) hi hlength hlt
      exact Decimal.not_lt_of_le hle (Decimal.lt_of_lt_of_le hend (Decimal.le_of_lt hnodes))
    · exact Decimal.not_lt_of_le hle (by simpa only [heq] using hend)

variable (hnodes : ∀ n ∈ nodes, n.pt.isNaN = false) (hpt : pt.isNaN = false)
include hnodes hpt

/-- Between the first and the last node the search finds a segment, whatever the
    order of the nodes. -/
theorem exists_find?_segments (habove : ¬ pt < first.pt) (hbelow : ¬ last.pt ≤ pt) :
    ∃ s, (segments nodes).find? (inSegment pt) = some s := by
  have hle : first.pt ≤ pt :=
    (Decimal.lt_or_le hpt (hnodes _ (List.mem_of_head? hfirst))).resolve_left habove
  obtain ⟨s, hs, hstart, hend⟩ := exists_segment (p := fun n => n.pt ≤ pt) hfirst hlast hle hbelow
  have hs₂ : s.2 ∈ nodes := List.mem_of_mem_tail (List.of_mem_zip hs).2
  have hlt : pt < s.2.pt := (Decimal.lt_or_le hpt (hnodes _ hs₂)).resolve_right hend
  rw [← Option.isSome_iff_exists, List.find?_isSome]
  exact ⟨s, hs, by simp [inSegment, hstart, hlt]⟩

end

/-- **The band of a momentum among nodes.**  For nodes and a momentum that are
    numbers the search gives a band, and no access fails. Before the first node it
    is that of the first node, from the last one on that of the last. In between,
    whatever the order of the nodes, the search finds a segment by itself: it is
    the first that holds the momentum, its ends differ, and the band is that on the
    segment. If the nodes ascend, no other segment holds the momentum, and at a
    node but the last it is the segment that starts there. -/
theorem band_of_segment {nodes : List (Node Float)} {first last : Node Float}
    (hfirst : nodes.head? = some first) (hlast : nodes.getLast? = some last)
    (hnodes : ∀ n ∈ nodes, n.pt.isNaN = false) {pt : Float} (hpt : pt.isNaN = false) :
    (∃ b, bandAt nodes pt = .ok (.band b) ∧ guardedBandAt nodes pt = .ok (.band b)) ∧
    (pt < first.pt → bandAt nodes pt = .ok (.band first.toBand)) ∧
    (¬ pt < first.pt → last.pt ≤ pt → bandAt nodes pt = .ok (.band last.toBand)) ∧
    (¬ pt < first.pt → ¬ last.pt ≤ pt →
      ∃ (i : Nat) (h : i + 1 < nodes.length), Holds nodes pt i ∧ (∀ j < i, ¬ Holds nodes pt j) ∧
        nodes[i].pt < nodes[i + 1].pt ∧
        (segments nodes).find? (inSegment pt) = some (nodes[i], nodes[i + 1]) ∧
        bandAt nodes pt = .ok (.band (onSegment pt (nodes[i], nodes[i + 1])))) ∧
    (Ascending nodes → (∀ i j, Holds nodes pt i → Holds nodes pt j → i = j) ∧
      ∀ (k : Nat) (h : k + 1 < nodes.length), (pt == nodes[k].pt) = true →
        bandAt nodes pt = .ok (.band (onSegment pt (nodes[k], nodes[k + 1])))) := by
  have hbefore : pt < first.pt → bandAt nodes pt = .ok (.band first.toBand) :=
    bandAt_of_lt hfirst hlast
  have hafter : ¬ pt < first.pt → last.pt ≤ pt → bandAt nodes pt = .ok (.band last.toBand) :=
    bandAt_of_le hfirst hlast
  have hbetween : ¬ pt < first.pt → ¬ last.pt ≤ pt →
      ∃ (i : Nat) (h : i + 1 < nodes.length), Holds nodes pt i ∧ (∀ j < i, ¬ Holds nodes pt j) ∧
        nodes[i].pt < nodes[i + 1].pt ∧
        (segments nodes).find? (inSegment pt) = some (nodes[i], nodes[i + 1]) ∧
        bandAt nodes pt = .ok (.band (onSegment pt (nodes[i], nodes[i + 1]))) := by
    intro habove hbelow
    obtain ⟨s, hs⟩ := exists_find?_segments hfirst hlast hnodes hpt habove hbelow
    obtain ⟨i, hi, rfl, hholds, hleast⟩ := find?_segments_eq_some_iff.1 hs
    exact ⟨i, hi, hholds, hleast, hholds.lt.2, hs, bandAt_of_find? hfirst hlast habove hbelow hs⟩
  refine ⟨?_, hbefore, hafter, hbetween, fun hascending =>
    ⟨fun i j => hascending.holds_unique, fun k hk heq => ?_⟩⟩
  · have hband : ∃ b, bandAt nodes pt = .ok (.band b) := by
      by_cases habove : pt < first.pt
      · exact ⟨_, hbefore habove⟩
      by_cases hbelow : last.pt ≤ pt
      · exact ⟨_, hafter habove hbelow⟩
      obtain ⟨i, hi, -, -, -, -, hband⟩ := hbetween habove hbelow
      exact ⟨_, hband⟩
    obtain ⟨b, hb⟩ := hband
    exact ⟨b, hb, by rw [guardedBandAt_eq, hb]; rfl⟩
  · have hholds := hascending.holds_at hk heq
    obtain ⟨habove, hbelow⟩ := hascending.between hfirst hlast hholds
    obtain ⟨i, hi, hfound, -, -, -, hband⟩ := hbetween habove hbelow
    obtain rfl := hascending.holds_unique hfound hholds
    exact hband

/-- Nodes out of order, with a momentum between the last two. -/
theorem band_of_segment_out_of_order :
    ∃ nodes : List (Node Float), nodes.map (·.pt) = [10, 40, 30, 60] ∧
      (∀ n ∈ nodes, n.pt.isNaN = false) ∧ (50 : Float).isNaN = false ∧
      ∃ (i : Nat) (h : i + 1 < nodes.length), Holds nodes 50 i ∧
        bandAt nodes 50 = .ok (.band (onSegment 50 (nodes[i], nodes[i + 1]))) := by
  let nodes : List (Node Float) := [10, 40, 30, 60].map fun pt => { low := 0, high := 0, pt }
  have hnodes : ∀ n ∈ nodes, n.pt.isNaN = false := by decide
  have hpt : (50 : Float).isNaN = false := by decide
  obtain ⟨-, -, -, hbetween, -⟩ := @band_of_segment nodes _ _ rfl rfl hnodes 50 hpt
  obtain ⟨i, hi, hholds, -, -, -, hband⟩ := hbetween (by decide) (by decide)
  exact ⟨nodes, rfl, hnodes, hpt, i, hi, hholds, hband⟩

end JetEnergy.Uncertainty
