import JetEnergy.Proofs.Decimal.Rounding
import JetEnergy.Resolution

/-!
  Scale factors of all directions.

  * `Spans` says that the bins of a table meet edge to edge, from one direction up
    to another. Then a direction between both ends lies in one bin
    (`Spans.filter_of_inside`), and a direction in a bin lies between both ends
    (`Spans.between_of_contains`).
  * `Covers` says which factor each direction has then; `Spans.covers`.
  * `Symmetric`: the mirror image of every bin is a bin. `Spans.factor_neg`: then
    directions off the edges have the factors of their mirror images.
  * `one_bin_for_each_direction`: all of this, and the measured factors are such a
    table.
-/
namespace JetEnergy.Resolution

namespace Bin

theorem contains_iff {b : Bin} {eta : Float} :
    b.contains eta = true ↔ b.etaLow ≤ eta ∧ eta < b.etaHigh := by
  simp [contains]

/-- The mirror image of a bin: the same factors, and edges on the other side of
    zero. -/
structure Mirrors (b c : Bin) : Prop where
  low : (c.etaLow == -b.etaHigh) = true
  high : (c.etaHigh == -b.etaLow) = true
  factor : ∀ v, c.factor v = b.factor v

instance (b c : Bin) : Decidable (b.Mirrors c) :=
  decidable_of_iff ((c.etaLow == -b.etaHigh) = true ∧ (c.etaHigh == -b.etaLow) = true ∧
      c.nominal = b.nominal ∧ c.low = b.low ∧ c.high = b.high)
    ⟨fun ⟨hlow, hhigh, hn, hl, hh⟩ => ⟨hlow, hhigh, fun v => by
        cases v with
        | nominal => exact hn
        | low => exact hl
        | high => exact hh⟩,
      fun h => ⟨h.low, h.high, h.factor .nominal, h.factor .low, h.factor .high⟩⟩

/-- A direction between the mirrored edges of a bin is in its mirror image. -/
theorem Mirrors.contains {b c : Bin} {eta : Float} (h : b.Mirrors c)
    (hlow : -b.etaHigh < eta) (hhigh : eta < -b.etaLow) : c.contains eta = true :=
  contains_iff.2 ⟨Decimal.le_trans (Decimal.le_of_beq h.low).1 (Decimal.le_of_lt hlow),
    Decimal.lt_of_lt_of_le hhigh (Decimal.le_of_beq h.high).2⟩

end Bin

namespace ScaleFactors

/-- The bins of a table meet edge to edge from `low` up to `high`. Edges compare as
    numbers do: zero is the same edge with either sign. -/
structure Spans (bins : ScaleFactors) (low high : Float) : Prop where
  ascending : ∀ b ∈ bins, b.etaLow < b.etaHigh
  joined : bins.IsChain fun b c => (b.etaHigh == c.etaLow) = true
  first : bins.head?.map (·.etaLow) = some low
  last : bins.getLast?.map (·.etaHigh) = some high

/-- The factors of a table between `low` and `high`: a direction from `low` to below
    `high` lies in one bin, at one place of the table, and has the factors of this
    bin. Every other direction has the factor 1, also one that is not a number. -/
structure Covers (bins : ScaleFactors) (low high : Float) : Prop where
  inside : ∀ eta, low ≤ eta → eta < high → ∃ b, bins.filter (·.contains eta) = [b] ∧
    ∀ v, bins.factor eta v = b.factor v
  outside : ∀ eta, ¬ (low ≤ eta ∧ eta < high) → ∀ v, bins.factor eta v = 1
  not_number : ∀ eta, eta.isNaN = true → ∀ v, bins.factor eta v = 1

/-- An end of a bin. -/
def IsEdge (bins : ScaleFactors) (eta : Float) : Prop :=
  ∃ b ∈ bins, (eta == b.etaLow) = true ∨ (eta == b.etaHigh) = true

instance (bins : ScaleFactors) (eta : Float) : Decidable (bins.IsEdge eta) :=
  inferInstanceAs (Decidable (∃ b ∈ bins, _))

/-- The mirror image of every bin is a bin. -/
def Symmetric (bins : ScaleFactors) : Prop :=
  ∀ b ∈ bins, ∃ c ∈ bins, b.Mirrors c

instance (bins : ScaleFactors) : Decidable bins.Symmetric :=
  inferInstanceAs (Decidable (∀ b ∈ bins, _))

/-! ## Factors -/

section
variable {bins : ScaleFactors} {eta : Float}

theorem factor_of_filter {b : Bin} (h : bins.filter (·.contains eta) = [b]) (v : Variation) :
    bins.factor eta v = b.factor v := by
  rw [factor, ← List.head?_filter, h]
  rfl

theorem factor_of_none (h : ∀ b ∈ bins, ¬ b.contains eta = true) (v : Variation) :
    bins.factor eta v = 1 := by
  rw [factor, List.find?_eq_none.2 h]

end

/-! ## Edges that meet -/

namespace Spans

variable {b c : Bin} {bins : ScaleFactors} {low high eta : Float}

/-- The edge between the first two bins of a table. -/
theorem meets (h : Spans (b :: c :: bins) low high) : (b.etaHigh == c.etaLow) = true :=
  (List.isChain_cons_cons.1 h.joined).1

theorem tail (h : Spans (b :: c :: bins) low high) : Spans (c :: bins) c.etaLow high where
  ascending d hd := h.ascending d (List.mem_cons_of_mem _ hd)
  joined := (List.isChain_cons_cons.1 h.joined).2
  first := rfl
  last := by simpa [List.getLast?_cons_cons] using h.last

theorem head_low (h : Spans (b :: bins) low high) : b.etaLow = low :=
  Option.some.inj h.first

theorem low_lt_high (h : Spans (b :: bins) low high) : b.etaLow < b.etaHigh :=
  h.ascending b (List.mem_cons_self ..)

/-- The bins behind the first one begin where it ends, or after that. -/
theorem high_le_low (h : Spans (b :: bins) low high) : ∀ d ∈ bins, b.etaHigh ≤ d.etaLow := by
  induction bins generalizing b low with
  | nil => exact fun d hd => absurd hd (List.not_mem_nil)
  | cons c bins ih =>
    have hmeets : b.etaHigh ≤ c.etaLow := (Decimal.le_of_beq h.meets).1
    intro d hd
    rcases List.mem_cons.1 hd with rfl | hd
    · exact hmeets
    · have hup : c.etaLow ≤ c.etaHigh := Decimal.le_of_lt h.tail.low_lt_high
      exact Decimal.le_trans (Decimal.le_trans hmeets hup) (ih h.tail d hd)

/-- The last bin ends where the table does, and the others end before. -/
theorem high_le (h : Spans bins low high) : ∀ d ∈ bins, d.etaHigh ≤ high := by
  induction bins generalizing low with
  | nil => exact fun d hd => absurd hd (List.not_mem_nil)
  | cons b bins ih =>
    have hb : b.etaHigh.isNaN = false := (Decimal.isNaN_of_le (Decimal.le_of_lt h.low_lt_high)).2
    intro d hd
    cases bins with
    | nil =>
      rw [List.mem_singleton.1 hd, ← Option.some.inj h.last]
      exact Decimal.le_refl hb
    | cons c bins =>
      rcases List.mem_cons.1 hd with rfl | hd
      · have hup : c.etaLow ≤ c.etaHigh := Decimal.le_of_lt h.tail.low_lt_high
        exact Decimal.le_trans (Decimal.le_trans (Decimal.le_of_beq h.meets).1 hup)
          (ih h.tail c (List.mem_cons_self ..))
      · exact ih h.tail d hd

theorem low_le (h : Spans bins low high) : ∀ d ∈ bins, low ≤ d.etaLow := by
  intro d hd
  cases bins with
  | nil => cases hd
  | cons b bins =>
    rw [← h.head_low]
    rcases List.mem_cons.1 hd with rfl | hd
    · exact Decimal.le_refl (Decimal.isNaN_of_le (Decimal.le_of_lt h.low_lt_high)).1
    · exact Decimal.le_trans (Decimal.le_of_lt h.low_lt_high) (h.high_le_low d hd)

/-- A direction in a bin lies between both ends of the table. -/
theorem between_of_contains (h : Spans bins low high) (hb : b ∈ bins)
    (hin : b.contains eta = true) : low ≤ eta ∧ eta < high := by
  obtain ⟨hlow, hhigh⟩ := Bin.contains_iff.1 hin
  exact ⟨Decimal.le_trans (h.low_le b hb) hlow, Decimal.lt_of_lt_of_le hhigh (h.high_le b hb)⟩

/-- A direction between both ends of the table lies in one bin. -/
theorem filter_of_inside (h : Spans bins low high) (hlow : low ≤ eta) (hhigh : eta < high) :
    ∃ b, bins.filter (·.contains eta) = [b] := by
  induction bins generalizing low with
  | nil => cases h.first
  | cons b bins ih =>
    rw [← h.head_low] at hlow
    have heta : eta.isNaN = false := (Decimal.isNaN_of_le hlow).2
    have hb : b.etaHigh.isNaN = false := (Decimal.isNaN_of_le (Decimal.le_of_lt h.low_lt_high)).2
    rcases Decimal.lt_or_le heta hb with hin | hbehind
    · -- the bins behind the first one begin after this direction
      have hnone : bins.filter (·.contains eta) = [] := by
        refine List.filter_eq_nil_iff.2 fun d hd hcontains => ?_
        have hafter : eta < d.etaLow := Decimal.lt_of_lt_of_le hin (h.high_le_low d hd)
        exact Decimal.not_lt_of_le (Bin.contains_iff.1 hcontains).1 hafter
      exact ⟨b, by rw [List.filter_cons, if_pos (Bin.contains_iff.2 ⟨hlow, hin⟩), hnone]⟩
    · have hout : ¬ b.contains eta = true := fun hcontains =>
        Decimal.not_lt_of_le hbehind (Bin.contains_iff.1 hcontains).2
      rw [List.filter_cons, if_neg hout]
      cases bins with
      | nil =>
        rw [← Option.some.inj h.last] at hhigh
        exact absurd hhigh (Decimal.not_lt_of_le hbehind)
      | cons c bins => exact ih h.tail (Decimal.le_trans (Decimal.le_of_beq h.meets).2 hbehind)

theorem filter_of_contains (h : Spans bins low high) (hb : b ∈ bins)
    (hin : b.contains eta = true) : bins.filter (·.contains eta) = [b] := by
  obtain ⟨hlow, hhigh⟩ := h.between_of_contains hb hin
  obtain ⟨d, hd⟩ := h.filter_of_inside hlow hhigh
  have hmem : b ∈ bins.filter (·.contains eta) := List.mem_filter.2 ⟨hb, hin⟩
  rw [hd] at hmem
  rw [hd, List.mem_singleton.1 hmem]

theorem covers (h : Spans bins low high) : Covers bins low high where
  inside eta hlow hhigh := by
    obtain ⟨b, hb⟩ := h.filter_of_inside hlow hhigh
    exact ⟨b, hb, factor_of_filter hb⟩
  outside eta hout :=
    factor_of_none fun b hb hin => hout (h.between_of_contains hb hin)
  not_number eta heta :=
    factor_of_none fun b _ hin => Decimal.not_le_of_isNaN heta _ (Bin.contains_iff.1 hin).1

end Spans

/-! ## Mirror images -/

section
variable {bins : ScaleFactors} {low high eta : Float}

theorem lt_of_contains {b : Bin} (hb : b ∈ bins) (hin : b.contains eta = true)
    (hedge : ¬ bins.IsEdge eta) : b.etaLow < eta ∧ eta < b.etaHigh := by
  obtain ⟨hlow, hhigh⟩ := Bin.contains_iff.1 hin
  refine ⟨Decimal.lt_of_le_of_not_beq hlow fun heq => hedge ⟨b, hb, Or.inl ?_⟩, hhigh⟩
  rw [Decimal.beq_iff, Decimal.compare_swap, Decimal.beq_iff.1 heq]
  rfl

/-- A direction off the edges has the factors of its mirror image. -/
theorem Spans.factor_neg (h : Spans bins low high) (hsymmetric : bins.Symmetric)
    (hedge : ¬ bins.IsEdge eta) (hmirrored : ¬ bins.IsEdge (-eta)) (v : Variation) :
    bins.factor (-eta) v = bins.factor eta v := by
  by_cases hin : ∃ b ∈ bins, b.contains eta = true
  · obtain ⟨b, hb, hin⟩ := hin
    obtain ⟨hlow, hhigh⟩ := lt_of_contains hb hin hedge
    obtain ⟨c, hc, hmirrors⟩ := hsymmetric b hb
    have hneg : c.contains (-eta) = true :=
      hmirrors.contains (Decimal.neg_lt_neg_iff.2 hhigh) (Decimal.neg_lt_neg_iff.2 hlow)
    rw [factor_of_filter (h.filter_of_contains hb hin),
      factor_of_filter (h.filter_of_contains hc hneg), hmirrors.factor]
  · -- a bin around the mirror image would have its own mirror image around `eta`
    have hnone : ∀ c ∈ bins, ¬ c.contains (-eta) = true := by
      intro c hc hcontains
      obtain ⟨hlow, hhigh⟩ := lt_of_contains hc hcontains hmirrored
      obtain ⟨b, hb, hmirrors⟩ := hsymmetric c hc
      have hback : b.contains eta = true :=
        hmirrors.contains (Decimal.neg_lt_iff.1 hhigh) (Decimal.lt_neg_iff.1 hlow)
      exact hin ⟨b, hb, hback⟩
    rw [factor_of_none hnone, factor_of_none fun b hb hcontains => hin ⟨b, hb, hcontains⟩]

end

/-! ## The measured factors -/

theorem spans_measured : measured.Spans (-5.191) 5.191 where
  ascending := by decide +kernel
  joined := by decide +kernel
  first := rfl
  last := rfl

theorem symmetric_measured : measured.Symmetric := by
  decide +kernel

end ScaleFactors

/-- **Each direction has one bin.**  If the bins of a table meet edge to edge, then
    every direction between both ends lies in exactly one of them and has the
    factors of this bin, and every other direction, also one that is not a number,
    has the factor 1. The measured factors are such a table, from -5.191 up to
    5.191, and on both sides of zero they are the same, off the edges. -/
theorem one_bin_for_each_direction :
    (∀ (bins : ScaleFactors) (low high : Float), bins.Spans low high → bins.Covers low high) ∧
    ScaleFactors.measured.Spans (-5.191) 5.191 ∧
    ∀ eta v, ¬ ScaleFactors.measured.IsEdge eta → ¬ ScaleFactors.measured.IsEdge (-eta) →
      ScaleFactors.measured.factor eta v = ScaleFactors.measured.factor (-eta) v :=
  ⟨fun _ _ _ h => h.covers, ScaleFactors.spans_measured, fun _ v hedge hmirrored =>
    (ScaleFactors.spans_measured.factor_neg ScaleFactors.symmetric_measured hedge hmirrored
      v).symm⟩

/-- Two bins that meet at zero, which is written with both signs. -/
theorem one_bin_for_each_direction_of_two :
    ScaleFactors.Spans [⟨-1, -0.0, 1.5, 1, 2⟩, ⟨0, 1, 3, 2.5, 4⟩] (-1) 1 ∧
    ScaleFactors.Covers [⟨-1, -0.0, 1.5, 1, 2⟩, ⟨0, 1, 3, 2.5, 4⟩] (-1) 1 ∧
    ¬ ScaleFactors.measured.IsEdge 2.9 ∧ ¬ ScaleFactors.measured.IsEdge (-2.9) ∧
    ScaleFactors.measured.factor 2.9 .high = ScaleFactors.measured.factor (-2.9) .high := by
  have hspans : ScaleFactors.Spans [⟨-1, -0.0, 1.5, 1, 2⟩, ⟨0, 1, 3, 2.5, 4⟩] (-1) 1 :=
    ⟨by decide +kernel, by decide +kernel, rfl, rfl⟩
  have hedge : ¬ ScaleFactors.measured.IsEdge 2.9 := by decide +kernel
  have hmirrored : ¬ ScaleFactors.measured.IsEdge (-2.9) := by decide +kernel
  exact ⟨hspans, one_bin_for_each_direction.1 _ _ _ hspans, hedge, hmirrored,
    one_bin_for_each_direction.2.2 2.9 .high hedge hmirrored⟩

end JetEnergy.Resolution
