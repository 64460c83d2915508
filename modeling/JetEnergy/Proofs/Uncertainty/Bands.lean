import Mathlib.Data.List.GetD
import JetEnergy.Proofs.Decimal.Doubles
import JetEnergy.Proofs.TableFile.Accesses
import JetEnergy.Proofs.Uncertainty.Reading
import JetEnergy.Uncertainty.Positions

/-!
  Looking up a band without leaving a list.

  * `guardedBandAt_eq`: finding the band of some nodes by positions fails where the
    band has no segment, whatever the nodes are, and nowhere else.
  * `isNaN_pt_of_parse`: the nodes of a file stand at numbers.
  * `Table.Stuck`: a momentum that is no number meets an entry with a single node.
    `band_cases`: what the band of a jet can be; it halts only if the jet is stuck.
-/
namespace JetEnergy.Uncertainty

open TableFile

/-! ## Bands by positions -/

section
variable {α : Type}

/-- The segment from the node number `i` on; `d` stands for nodes that are not
    there. -/
def segmentFrom (nodes : List (Node α)) (d : Node α) (i : Nat) : Node α × Node α :=
  (nodes.getD i d, nodes.getD (i + 1) d)

theorem segments_eq (nodes : List (Node α)) (d : Node α) :
    segments nodes = (List.range (nodes.length - 1)).map (segmentFrom nodes d) := by
  refine List.ext_getElem ?_ fun i hi hi' => ?_
  · rw [segments, List.length_zip, List.length_tail, List.length_map, List.length_range]
    omega
  · have hlt : i < nodes.length - 1 := by simpa using hi'
    rw [List.getElem_map, List.getElem_range, segmentFrom, List.getD_eq_getElem _ _ (by omega),
      List.getD_eq_getElem _ _ (by omega)]
    simp only [segments, List.getElem_zip, List.getElem_tail]

variable [LT α] [LE α] [DecidableLT α] [DecidableLE α]

/-- The segment of a momentum is found by its position, the first one being there
    if there are two nodes. -/
theorem segment?_eq {nodes : List (Node α)} (d : Node α) (h : 1 < nodes.length) (pt : α) :
    ∃ i < nodes.length - 1, segment? nodes pt = some (segmentFrom nodes d i) ∧
      ((List.range (nodes.length - 1)).find? fun j => inSegment pt (segmentFrom nodes d j)).getD 0 =
        i := by
  rw [segment?, segments_eq nodes d, List.find?_map]
  cases hfind : (List.range (nodes.length - 1)).find? (inSegment pt ∘ segmentFrom nodes d) with
  | none =>
    refine ⟨0, by omega, ?_, ?_⟩
    · obtain ⟨m, hm⟩ : ∃ m, nodes.length - 1 = m + 1 := ⟨nodes.length - 2, by omega⟩
      rw [hm, List.range_succ_eq_map]
      rfl
    · exact congrArg (Option.getD · 0) hfind
  | some i =>
    have hi := List.mem_range.1 (List.mem_of_find?_eq_some hfind)
    exact ⟨i, hi, rfl, congrArg (Option.getD · 0) hfind⟩

theorem entry_eq_getD {β : Type} {l : List β} {i : Nat} (h : i < l.length) (d : β) :
    entry l i = .ok (l.getD i d) := by
  rw [entry_eq h, List.getD_eq_getElem _ _ h]

theorem guardedHolds_eq {nodes : List (Node α)} (d : Node α) {i : Nat}
    (h : i + 1 < nodes.length) (pt : α) :
    guardedHolds (nodes.map (·.pt)) pt i = .ok (inSegment pt (segmentFrom nodes d i)) := by
  rw [guardedHolds, entry_map, entry_map, entry_eq_getD (Nat.lt_of_succ_lt h) d, entry_eq_getD h d,
    inSegment, segmentFrom]
  simp only [bind, Except.bind, Except.map]
  split
  · next hle => rw [decide_eq_true hle, Bool.true_and]; rfl
  · next hle => rw [decide_eq_false hle, Bool.false_and]; rfl

variable [Add α] [Sub α] [Mul α] [Div α]

/-- **An access to a node fails only where there is no segment.** -/
theorem guardedBandAt_eq (nodes : List (Node α)) (pt : α) :
    guardedBandAt nodes pt = (bandAt nodes pt).mapError fun _ => .outside := by
  cases hnodes : nodes with
  | nil => rfl
  | cons first rest =>
    have hlength : nodes.length = rest.length + 1 := by rw [hnodes, List.length_cons]
    have hhead : nodes.head? = some first := by rw [hnodes]; rfl
    have hfirst : entry nodes 0 = .ok first := by rw [hnodes]; rfl
    have hlast : entry nodes rest.length = .ok (nodes.getD rest.length first) :=
      entry_eq_getD (by omega) first
    have hgetLast : nodes.getLast? = some (nodes.getD rest.length first) := by
      rw [List.getLast?_eq_getElem?, hlength, Nat.add_sub_cancel,
        List.getElem?_eq_getElem (by omega), List.getD_eq_getElem _ _ (by omega)]
    rw [← hnodes, guardedBandAt, bandAt, hhead, hgetLast]
    simp only [List.length_map, hlength, Nat.succ_ne_zero, if_false, less_eq (Nat.le_add_left 1 _),
      Nat.add_sub_cancel, entry_map, hfirst, hlast, bind, Except.bind, Except.map]
    split
    · rfl
    split
    · rfl
    have hfind : (List.range rest.length).findM? (guardedHolds (nodes.map (·.pt)) pt) =
        .ok ((List.range rest.length).find? fun j => inSegment pt (segmentFrom nodes first j)) :=
      findM?_eq fun i hi => guardedHolds_eq first (by have := List.mem_range.1 hi; omega) pt
    rw [hfind]
    dsimp only
    cases hrest : rest with
    | nil =>
      rw [hnodes, hrest]
      rfl
    | cons second others =>
      have htwo : 1 < nodes.length := by rw [hlength, hrest, List.length_cons]; omega
      obtain ⟨i, hi, hsegment, hindex⟩ := segment?_eq first htwo pt
      rw [hlength, Nat.add_sub_cancel] at hi hindex
      rw [← hrest, hindex, hsegment, entry_eq_getD (by omega) first, entry_eq_getD (by omega) first]
      rfl

end

/-! ## Momenta that are no numbers -/

/-- Nodes at numbers have a band at every momentum, unless there is just one of
    them and the momentum is no number. -/
theorem bandAt_cases {nodes : List (Node Float)} (h : ∀ n ∈ nodes, n.pt.isNaN = false)
    (pt : Float) :
    (nodes = [] ∧ bandAt nodes pt = .ok .noNodes) ∨
    (nodes.length = 1 ∧ pt.isNaN = true ∧ bandAt nodes pt = .error .missingNode) ∨
    (nodes ≠ [] ∧ ¬ (nodes.length = 1 ∧ pt.isNaN = true) ∧
      ∃ b, bandAt nodes pt = .ok (.band b)) := by
  match nodes with
  | [] => exact Or.inl ⟨rfl, rfl⟩
  | [n] =>
    refine Or.inr ?_
    cases hpt : pt.isNaN with
    | true =>
      refine Or.inl ⟨rfl, rfl, ?_⟩
      rw [bandAt]
      simp only [List.head?_cons, List.getLast?_singleton,
        if_neg (Decimal.not_lt_of_isNaN hpt n.pt), if_neg (Decimal.not_le_of_isNaN hpt n.pt)]
      rfl
    | false =>
      refine Or.inr ⟨List.cons_ne_nil _ _, by simp, n.toBand, ?_⟩
      rw [bandAt]
      simp only [List.head?_cons, List.getLast?_singleton]
      rcases Decimal.lt_or_le hpt (h n (List.mem_singleton_self n)) with hlt | hle
      · rw [if_pos hlt]
      · rw [if_neg (Decimal.not_lt_of_le hle), if_pos hle]
  | first :: second :: rest =>
    refine Or.inr (Or.inr ⟨List.cons_ne_nil _ _, by simp, ?_⟩)
    have htwo : 1 < (first :: second :: rest).length := by
      rw [List.length_cons, List.length_cons]
      omega
    obtain ⟨i, -, hsegment, -⟩ := segment?_eq first htwo pt
    rw [bandAt, hsegment, List.head?_cons, List.getLast?_cons]
    dsimp only
    split
    · exact ⟨_, rfl⟩
    split
    · exact ⟨_, rfl⟩
    · exact ⟨_, rfl⟩

theorem isNaN_pt_of_mem_nodesOf {fields : List Field} {n : Node Float} (h : n ∈ nodesOf fields) :
    n.pt.isNaN = false := by
  fun_induction nodesOf fields with
  | case1 pt low high rest ih =>
    rcases List.mem_cons.1 h with rfl | h
    · exact Decimal.isNaN_leadingFloat pt
    · exact ih h
  | case2 => cases h

/-- The nodes of a file stand at numbers. -/
theorem isNaN_pt_of_parse {source : String} {text : List Char} {t : Table}
    (ht : Table.parse source text = .ok t) {e : Entry} (he : e ∈ t.entries) {n : Node Float}
    (hn : n ∈ e.nodes) : n.pt.isNaN = false := by
  rw [entries_of_parse ht] at he
  obtain ⟨r, -, rfl⟩ := List.mem_map.1 he
  rw [entryOf, nodesIn] at hn
  split at hn
  · cases hn
  · exact isNaN_pt_of_mem_nodesOf hn

/-! ## Tables -/

namespace Table

/-- The jet lies in the bins of an entry with a single node, and its momentum is
    no number, so it is on neither side of the node. -/
def Stuck (t : Table) (jet : Jet) : Prop :=
  jet.pt.isNaN = true ∧ ∃ e, t.find? jet = some e ∧ e.nodes.length = 1

theorem guardedBand_eq (t : Table) (jet : Jet) :
    t.guardedBand jet = (t.band jet).mapError fun _ => .outside := by
  rw [guardedBand, band]
  cases t.find? jet with
  | none => rfl
  | some e => exact guardedBandAt_eq e.nodes jet.pt

section
variable {source : String} {text : List Char} {t : Table} (ht : Table.parse source text = .ok t)
include ht

/-- What the band of a jet can be. -/
theorem band_cases (jet : Jet) :
    (t.Stuck jet ∧ t.band jet = .error .missingNode) ∨
    (¬ t.Stuck jet ∧
      ((t.find? jet = none ∧ t.band jet = .ok .noMatch) ∨
        ∃ e ∈ t.entries, t.find? jet = some e ∧
          ((e.nodes = [] ∧ t.band jet = .ok .noNodes) ∨
            (e.nodes ≠ [] ∧ ∃ b, t.band jet = .ok (.band b))))) := by
  rw [Stuck, band]
  cases hfind : t.find? jet with
  | none => exact Or.inr ⟨by simp, Or.inl ⟨rfl, rfl⟩⟩
  | some e =>
    have he : e ∈ t.entries := List.mem_of_find?_eq_some hfind
    dsimp only
    rcases bandAt_cases (fun n hn => isNaN_pt_of_parse ht he hn) jet.pt with
      ⟨hnil, hband⟩ | ⟨hone, hpt, hband⟩ | ⟨hne, hstuck, hband⟩
    · exact Or.inr ⟨by simp [hnil], Or.inr ⟨e, he, rfl, Or.inl ⟨hnil, hband⟩⟩⟩
    · exact Or.inl ⟨⟨hpt, e, rfl, hone⟩, hband⟩
    · refine Or.inr ⟨?_, Or.inr ⟨e, he, rfl, Or.inr ⟨hne, hband⟩⟩⟩
      rintro ⟨hpt, e', he', hone⟩
      cases he'
      exact hstuck ⟨hone, hpt⟩

theorem band_error_iff {jet : Jet} {halt : Halt} :
    t.band jet = .error halt ↔ halt = .missingNode ∧ t.Stuck jet := by
  rcases band_cases ht jet with ⟨hstuck, hband⟩ | ⟨hstuck, hband⟩
  · rw [hband]
    constructor
    · intro h; cases h; exact ⟨rfl, hstuck⟩
    · rintro ⟨rfl, -⟩; rfl
  · constructor
    · intro h
      rcases hband with ⟨-, hband⟩ | ⟨e, -, -, ⟨-, hband⟩ | ⟨-, b, hband⟩⟩ <;>
        cases h.symm.trans hband
    · rintro ⟨-, h⟩
      exact absurd h hstuck

theorem shift_error_iff {jet : Jet} {s : Systematic} {halt : Halt} :
    t.shift jet s = .error halt ↔ halt = .missingNode ∧ s ≠ .nominal ∧ t.Stuck jet := by
  rw [and_left_comm, ← band_error_iff ht, shift]
  split
  · next hs => simp [hs]
  · next hs => simp [map_error_iff, hs]

end

end Table

end JetEnergy.Uncertainty
