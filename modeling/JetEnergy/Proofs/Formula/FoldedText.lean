import JetEnergy.Proofs.Formula.Lexing
import JetEnergy.Proofs.Formula.Transport

/-!
  The symbols of a folded text.

  * A text folds piece by piece, wherever it is cut between two characters that
    are not both letters: `fold_append`.
  * Numbers, names, references and marks each keep their extent, unless a
    letter that stands alone lies inside a name: `lone`.
  * `fold_symbols?`: the symbols of a folded text are those of the text with
    the name `t` replaced.  Where they are not, neither text is of any use: the
    one has a name that nothing bears, the other has operands side by side or
    no symbols at all.
-/
namespace JetEnergy.Formula

open Decimal

/-! ## Folding piece by piece -/

/-- Whether a `t` stands alone in a text; `previous` is the character before
    the text. -/
def lone (previous : Option Char) : List Char → Bool
  | [] => false
  | c :: rest =>
    (c = 't' && !previous.any Char.isAlpha && !rest.head?.any Char.isAlpha) || lone (some c) rest

section
variable {slot : Nat}

theorem fold_nil : fold 't' slot [] = [] :=
  rfl

/-- What stands before a text matters to a letter only. -/
theorem foldAfter_eq_fold {text : List Char} {previous : Option Char}
    (h : previous.any Char.isAlpha = false ∨ text.head?.any Char.isAlpha = false) :
    foldAfter 't' slot previous text = fold 't' slot text := by
  cases text with
  | nil => rfl
  | cons c rest =>
    rcases h with h | h
    · simp [fold, foldAfter, h]
    · have hc : c ≠ 't' := by rintro rfl; exact absurd h (by simp)
      simp [fold, foldAfter, hc]

theorem fold_cons {c : Char} (h : c.isAlpha = false) (rest : List Char) :
    fold 't' slot (c :: rest) = c :: fold 't' slot rest := by
  have hc : c ≠ 't' := by rintro rfl; revert h; decide
  have hrest : foldAfter 't' slot (some c) rest = fold 't' slot rest :=
    foldAfter_eq_fold (Or.inl h)
  rw [fold, foldAfter, hrest]
  simp [hc]

/-- The first character stays, or a bracket takes its place. -/
theorem exists_foldAfter_cons (slot : Nat) (previous : Option Char) (c : Char) (rest : List Char) :
    ∃ after, foldAfter 't' slot previous (c :: rest) = c :: after ∨
      c = 't' ∧ foldAfter 't' slot previous (c :: rest) = '[' :: after := by
  rw [foldAfter]
  split
  · next h => exact ⟨_, Or.inr ⟨by simp at h; exact h.1.1, rfl⟩⟩
  · exact ⟨_, Or.inl rfl⟩

theorem foldAfter_append {w rest : List Char} (hne : w ≠ [])
    (h : ∀ c ∈ w.getLast?, c.isAlpha = true → rest.head?.any Char.isAlpha = false)
    (previous : Option Char) :
    foldAfter 't' slot previous (w ++ rest) =
      foldAfter 't' slot previous w ++ fold 't' slot rest := by
  induction w generalizing previous with
  | nil => exact absurd rfl hne
  | cons c w ih =>
    cases w with
    | nil =>
      have hc : c.isAlpha = true → rest.head?.any Char.isAlpha = false := h c rfl
      have hrest : foldAfter 't' slot (some c) rest = fold 't' slot rest := by
        refine foldAfter_eq_fold ?_
        cases hca : c.isAlpha with
        | true => exact Or.inr (hc hca)
        | false => exact Or.inl hca
      by_cases ht : c = 't'
      · simp [foldAfter, hrest, hc (by rw [ht]; decide)]
      · simp [foldAfter, hrest, ht]
    | cons d w =>
      have hlast : ∀ a ∈ (d :: w).getLast?, a.isAlpha = true →
          rest.head?.any Char.isAlpha = false := fun a ha => h a (by rwa [List.getLast?_cons_cons])
      rw [List.cons_append, foldAfter, foldAfter, ih (by simp) hlast, List.append_assoc]
      rfl

theorem fold_append {w rest : List Char} (hne : w ≠ [])
    (h : ∀ c ∈ w.getLast?, c.isAlpha = true → rest.head?.any Char.isAlpha = false) :
    fold 't' slot (w ++ rest) = fold 't' slot w ++ fold 't' slot rest :=
  foldAfter_append hne h none

theorem foldAfter_eq_self {previous : Option Char} {w : List Char} (h : lone previous w = false) :
    foldAfter 't' slot previous w = w := by
  induction w generalizing previous with
  | nil => rfl
  | cons c w ih =>
    simp only [lone, Bool.or_eq_false_iff] at h
    rw [foldAfter, ih h.2]
    simp only [h.1]
    rfl

/-- A text up to its first `t` that stands alone. -/
theorem exists_of_lone (slot : Nat) {previous : Option Char} {w : List Char}
    (h : lone previous w = true) :
    ∃ u v, w = u ++ 't' :: v ∧ v.head?.any Char.isAlpha = false ∧
      foldAfter 't' slot previous w = u ++ referenceTo slot ++ fold 't' slot v := by
  induction w generalizing previous with
  | nil => cases h
  | cons c w ih =>
    rw [foldAfter]
    split
    · next halone =>
      simp only [Bool.and_eq_true, decide_eq_true_eq, Bool.not_eq_true'] at halone
      obtain ⟨⟨rfl, -⟩, hw⟩ := halone
      exact ⟨[], w, rfl, hw, by rw [foldAfter_eq_fold (Or.inr hw)]; rfl⟩
    · next halone =>
      obtain ⟨u, v, rfl, hv, hfold⟩ := ih ((Bool.or_eq_true_iff.1 h).resolve_left halone)
      exact ⟨c :: u, v, rfl, hv, by rw [hfold]; rfl⟩

/-! ## Numbers -/

theorem takeWhile_foldAfter (previous : Option Char) (text : List Char) :
    (foldAfter 't' slot previous text).takeWhile Char.isDigit = text.takeWhile Char.isDigit := by
  induction text generalizing previous with
  | nil => rfl
  | cons c rest ih =>
    by_cases hc : c.isDigit
    · have ht : c ≠ 't' := by rintro rfl; revert hc; decide
      simp only [foldAfter, ht]
      simpa [hc] using ih (some c)
    · obtain ⟨after, h | ⟨rfl, h⟩⟩ := exists_foldAfter_cons slot previous c rest
      · rw [h, List.takeWhile_cons_of_neg hc, List.takeWhile_cons_of_neg hc]
      · rw [h, List.takeWhile_cons_of_neg hc, List.takeWhile_cons_of_neg (by decide)]

theorem dropWhile_fold (text : List Char) :
    (fold 't' slot text).dropWhile Char.isDigit = fold 't' slot (text.dropWhile Char.isDigit) := by
  induction text with
  | nil => rfl
  | cons c rest ih =>
    by_cases hc : c.isDigit
    · rw [fold_cons (not_isAlpha_of_isDigit hc), List.dropWhile_cons_of_pos hc,
        List.dropWhile_cons_of_pos hc, ih]
    · rw [List.dropWhile_cons_of_neg hc]
      obtain ⟨after, h | ⟨rfl, h⟩⟩ := exists_foldAfter_cons slot none c rest
      · rw [fold, h, List.dropWhile_cons_of_neg hc]
      · rw [fold, h, List.dropWhile_cons_of_neg (by decide)]

theorem takeFraction_fold (text : List Char) :
    takeFraction (fold 't' slot text) =
      ((takeFraction text).1, fold 't' slot (takeFraction text).2) := by
  cases text with
  | nil => rfl
  | cons c rest =>
    by_cases hpoint : c = '.'
    · subst hpoint
      rw [fold_cons (by decide)]
      simp only [takeFraction, dropWhile_fold]
      rw [fold, takeWhile_foldAfter]
    · rw [takeFraction_eq_self hpoint]
      obtain ⟨after, h | ⟨-, h⟩⟩ := exists_foldAfter_cons slot none c rest
      · rw [fold, h, takeFraction_eq_self hpoint]
      · rw [fold, h, takeFraction_eq_self (by decide)]

theorem takeSign_fold (text : List Char) :
    takeSign (fold 't' slot text) = ((takeSign text).1, fold 't' slot (takeSign text).2) := by
  cases text with
  | nil => rfl
  | cons c rest =>
    by_cases hminus : c = '-'
    · subst hminus; rw [fold_cons (by decide)]; rfl
    by_cases hplus : c = '+'
    · subst hplus; rw [fold_cons (by decide)]; rfl
    rw [takeSign_eq_self hminus hplus]
    obtain ⟨after, h | ⟨-, h⟩⟩ := exists_foldAfter_cons slot none c rest
    · rw [fold, h, takeSign_eq_self hminus hplus]
    · rw [fold, h, takeSign_eq_self (by decide) (by decide)]

theorem takeExponent_fold (text : List Char) :
    takeExponent (fold 't' slot text) =
      ((takeExponent text).1, fold 't' slot (takeExponent text).2) := by
  have hdigits : ∀ text, (fold 't' slot text).takeWhile Char.isDigit =
      text.takeWhile Char.isDigit := takeWhile_foldAfter none
  cases text with
  | nil => rfl
  | cons c rest =>
    by_cases he : c = 'e' ∨ c = 'E'
    · have hc : fold 't' slot (c :: rest) = c :: foldAfter 't' slot (some c) rest := by
        rcases he with rfl | rfl <;> rfl
      cases hrest : rest.head?.any Char.isAlpha with
      | false =>
        rw [foldAfter_eq_fold (Or.inr hrest)] at hc
        rw [hc]
        simp only [takeExponent, if_pos he, takeSign_fold, dropWhile_fold, hdigits]
        split
        · rw [hc]
        · rfl
      | true =>
        -- a letter follows the `e`, so neither text has an exponent here
        cases rest with
        | nil => cases hrest
        | cons d rest =>
          have hd : d.isAlpha = true := hrest
          have hcalpha : c.isAlpha = true := by rcases he with rfl | rfl <;> rfl
          have hfold : foldAfter 't' slot (some c) (d :: rest) =
              d :: foldAfter 't' slot (some d) rest := by simp [foldAfter, hcalpha]
          rw [takeExponent_letter hd]
          simp only [hc, hfold]
          rw [takeExponent_letter hd]
    · rw [takeExponent_eq_self he]
      obtain ⟨after, h | ⟨-, h⟩⟩ := exists_foldAfter_cons slot none c rest
      · rw [fold, h, takeExponent_eq_self he]
      · rw [fold, h, takeExponent_eq_self (by decide)]

theorem unsigned?_fold (text : List Char) :
    Numeral.unsigned? (fold 't' slot text) =
      (Numeral.unsigned? text).map fun found => (found.1, fold 't' slot found.2) := by
  have hwhole : (fold 't' slot text).takeWhile Char.isDigit = text.takeWhile Char.isDigit :=
    takeWhile_foldAfter none text
  simp only [Numeral.unsigned?, hwhole, dropWhile_fold, takeFraction_fold, takeExponent_fold]
  split <;> rfl

/-! ## Names -/

theorem head?_fold_ne {c : Char} (hc : c ≠ '[') {text : List Char} (h : text.head? ≠ some c) :
    (fold 't' slot text).head? ≠ some c := by
  cases text with
  | nil => simp [fold_nil]
  | cons d rest =>
    obtain ⟨after, heq | ⟨-, heq⟩⟩ := exists_foldAfter_cons slot none d rest
    · rw [fold, heq]; exact h
    · rw [fold, heq]; simpa using hc.symm

theorem takeName_fold {text : List Char} (h : takeName text = []) :
    takeName (fold 't' slot text) = [] := by
  cases text with
  | nil => rfl
  | cons c rest =>
    have hc : (c.isAlphanum || c = '_') = false := by
      rw [Bool.eq_false_iff]
      intro hc
      rw [takeName_cons hc] at h; cases h
    rw [fold_cons (head?_not_isAlpha h)]
    refine takeName_eq_nil hc fun hcolon => head?_fold_ne (by decide) fun hrest => ?_
    obtain ⟨more, rfl⟩ := List.head?_eq_some_iff.1 hrest
    subst hcolon
    rw [takeName] at h; cases h

/-! ## References -/

/-- A `t` that stands alone inside a reference makes both texts unreadable. -/
theorem symbols?_bracket_lone {u z : List Char} (hu : ']' ∉ u) :
    symbols? ('[' :: (u ++ referenceTo slot ++ z)) = none := by
  have hinner : ']' ∉ u ++ '[' :: Nat.toDigits 10 slot := by
    simp only [List.mem_append, List.mem_cons, not_or]
    exact ⟨hu, by decide, not_mem_digits slot (by decide)⟩
  have hread := symbols?_reference hinner z
  have hbracket : '[' ∈ u ++ '[' :: Nat.toDigits 10 slot := by simp
  rw [index?_eq_none (mem_trim hbracket (by decide)) (by decide) (by decide)] at hread
  simpa [referenceTo] using hread

/-- A reference is the same in the folded text, and is none in one text if it
    is none in the other. -/
theorem symbols?_bracket (slot : Nat) (rest : List Char) :
    (symbols? ('[' :: rest) = none ∧ symbols? ('[' :: fold 't' slot rest) = none) ∨
      ∃ i after, after.length < rest.length ∧
        symbols? ('[' :: rest) = (symbols? after).map (.parameter i :: ·) ∧
        symbols? ('[' :: fold 't' slot rest) =
          (symbols? (fold 't' slot after)).map (.parameter i :: ·) := by
  by_cases hclose : ']' ∈ rest
  · obtain ⟨inner, after, rfl, hinner⟩ := List.eq_append_cons_of_mem hclose
    have hfold : fold 't' slot (inner ++ ']' :: after) =
        fold 't' slot inner ++ ']' :: fold 't' slot after := by
      rcases inner with _ | ⟨c, inner⟩
      · exact fold_cons (by decide) after
      · rw [fold_append (by simp) fun _ _ _ => rfl, fold_cons (c := ']') (by decide)]
    rw [hfold, symbols?_reference hinner]
    cases hlone : lone none inner with
    | false =>
      rw [fold, foldAfter_eq_self hlone, symbols?_reference hinner]
      cases index? (Text.trim inner) with
      | none => exact Or.inl ⟨rfl, rfl⟩
      | some i => exact Or.inr ⟨i, after, by simp; omega, rfl, rfl⟩
    | true =>
      obtain ⟨u, v, rfl, -, huv⟩ := exists_of_lone slot hlone
      have ht : 't' ∈ u ++ 't' :: v := by simp
      rw [index?_eq_none (mem_trim ht (by decide)) (by decide) (by decide), fold, huv,
        List.append_assoc]
      exact Or.inl ⟨rfl, symbols?_bracket_lone fun hu => hinner (List.mem_append_left _ hu)⟩
  · rw [symbols?_unclosed hclose]
    refine Or.inl ⟨rfl, ?_⟩
    cases hlone : lone none rest with
    | false => rw [fold, foldAfter_eq_self hlone, symbols?_unclosed hclose]
    | true =>
      obtain ⟨u, v, rfl, -, huv⟩ := exists_of_lone slot hlone
      rw [fold, huv]
      exact symbols?_bracket_lone fun hu => hclose (List.mem_append_left _ hu)

/-! ## Marks -/

theorem mark?_letter (c : Char) : mark? c (some '[') = mark? c (some 't') := by
  unfold mark?
  split <;> simp_all

theorem mark?_fold (c : Char) (rest : List Char) :
    mark? c (fold 't' slot rest).head? = mark? c rest.head? := by
  cases rest with
  | nil => rfl
  | cons d rest =>
    obtain ⟨after, h | ⟨rfl, h⟩⟩ := exists_foldAfter_cons slot none d rest
    · rw [fold, h]; rfl
    · rw [fold, h]; exact mark?_letter c

/-- A mark is no operand; its second character, if it takes one, is there and is
    no letter. -/
theorem mark?_spec {c : Char} {next : Option Char} {s : Symbol} {extra : Nat}
    (h : mark? c next = some (s, extra)) : s.isOperand = false ∧
      (extra = 0 ∨ extra = 1 ∧ ∃ d, next = some d ∧ d.isAlpha = false) := by
  unfold mark? at h
  split at h <;> cases h <;> simp [Symbol.isOperand]

/-! ## Symbols of a folded text -/

/-- The name `t` replaced by a parameter. -/
def foldSymbol (slot : Nat) : Symbol → Symbol
  | .name name => if name = "t" then .parameter slot else .name name
  | s => s

theorem foldSymbol_of_not_operand {s : Symbol} (h : s.isOperand = false) :
    foldSymbol slot s = s := by
  cases s with
  | name => cases h
  | _ => rfl

/-- The symbols of a folded text are those of the text with `t` replaced, or
    neither text is a formula: with operands side by side the folded text is
    none, and with a name that has a `t` alone in it the text is none. -/
def Folds (slot : Nat) (text : List Char) : Prop :=
  symbols? (fold 't' slot text) = (symbols? text).map (List.map (foldSymbol slot)) ∨
    (∀ ss, symbols? (fold 't' slot text) = some ss → ¬ Apart ss) ∧
    (slot < indexBound → ∀ ss, symbols? text = some ss →
      ∃ name, .name name ∈ ss ∧ name ≠ "t" ∧ lone none name.toList = true)

theorem Folds.cons {s : Symbol} {text after : List Char} (ih : Folds slot after)
    (h : symbols? text = (symbols? after).map (s :: ·))
    (h' : symbols? (fold 't' slot text) =
      (symbols? (fold 't' slot after)).map (foldSymbol slot s :: ·)) : Folds slot text := by
  rcases ih with ih | ⟨hno, hname⟩
  · refine Or.inl ?_
    rw [h, h', ih]
    cases symbols? after <;> rfl
  · refine Or.inr ⟨fun ss hss hapart => ?_, fun hslot ss hss => ?_⟩
    · rw [h'] at hss
      obtain ⟨ss', hss', rfl⟩ := Option.map_eq_some_iff.1 hss
      exact hno ss' hss' hapart.tail
    · rw [h] at hss
      obtain ⟨ss', hss', rfl⟩ := Option.map_eq_some_iff.1 hss
      obtain ⟨name, hmem, hne⟩ := hname hslot ss' hss'
      exact ⟨name, List.mem_cons_of_mem _ hmem, hne⟩

theorem Folds.of_none {text : List Char} (h : symbols? text = none)
    (h' : symbols? (fold 't' slot text) = none) : Folds slot text :=
  Or.inl (by rw [h, h']; rfl)

/-- What starts with a character that a name goes on with starts with an
    operand, if it has symbols. -/
theorem starts_with_operand {d : Char} (hd : (d.isAlphanum || d = '_') = true ∨ d = ':')
    {rest : List Char} {ss : List Symbol} (h : symbols? (d :: rest) = some ss) :
    ∃ s more, ss = s :: more ∧ s.isOperand = true := by
  by_cases hname : (d.isAlpha || d = '_') = true
  · rw [symbols?_name hname] at h
    obtain ⟨more, -, rfl⟩ := Option.map_eq_some_iff.1 h
    exact ⟨_, more, rfl, rfl⟩
  rcases hd with hd | rfl
  · have hdigit : d.isDigit = true := by
      simp only [Char.isAlphanum, Bool.or_eq_true] at hd hname
      exact (hd.resolve_right fun h => hname (Or.inr h)).resolve_left fun h => hname (Or.inl h)
    obtain ⟨⟨n, after⟩, hfound⟩ := exists_unsigned? hdigit rest
    rw [symbols?_number hfound] at h
    obtain ⟨more, -, rfl⟩ := Option.map_eq_some_iff.1 h
    exact ⟨_, more, rfl, rfl⟩
  · rw [symbols?_mark (by decide) (unsigned?_eq_none (by decide) (by decide) rest) (by decide)
      (by decide)] at h
    cases h

/-- A reference in the middle of a name stands beside an operand. -/
theorem not_apart_of_lone {c : Char} {rest u v z : List Char}
    (hc : (c.isAlpha || c = '_') = true) (huv : c :: takeName rest = u ++ 't' :: v)
    (hv : v.head?.any Char.isAlpha = false) (hne : c :: takeName rest ≠ ['t'])
    {ss : List Symbol} (h : symbols? (u ++ referenceTo slot ++ (fold 't' slot v ++ z)) = some ss) :
    ¬ Apart ss := by
  intro hapart
  have hreference : ∀ {more : List Char} {ss : List Symbol},
      symbols? (referenceTo slot ++ more) = some ss →
      ∃ ss', symbols? more = some ss' ∧ ss = .parameter slot :: ss' := by
    intro more ss h
    rw [symbols?_referenceTo] at h
    split at h
    · obtain ⟨ss', hmore, rfl⟩ := Option.map_eq_some_iff.1 h
      exact ⟨ss', hmore, rfl⟩
    · cases h
  cases u with
  | nil =>
    cases huv
    obtain ⟨ss', hafter, rfl⟩ := hreference h
    cases hrest : takeName rest with
    | nil => exact hne (by rw [hrest])
    | cons d v =>
      rw [hrest] at hv hafter
      rw [fold_cons hv, List.cons_append] at hafter
      obtain ⟨s, more, rfl, hs⟩ := starts_with_operand (takeName_head hrest) hafter
      exact (List.isChain_cons_cons.1 hapart).1 ⟨rfl, hs⟩
  | cons d u =>
    simp only [List.cons_append, List.cons.injEq] at huv
    obtain ⟨rfl, huv⟩ := huv
    have hend : takeName (referenceTo slot ++ (fold 't' slot v ++ z)) = [] := rfl
    rw [List.cons_append, List.cons_append, List.append_assoc,
      symbols?_word hc (takeName_append huv (by simp) hend)] at h
    obtain ⟨ss', hafter, rfl⟩ := Option.map_eq_some_iff.1 h
    obtain ⟨more, -, rfl⟩ := hreference hafter
    exact (List.isChain_cons_cons.1 hapart).1 ⟨rfl, rfl⟩

theorem Folds.of_name {c : Char} (hc : (c.isAlpha || c = '_') = true) {rest : List Char}
    (ih : Folds slot (rest.drop (takeName rest).length)) : Folds slot (c :: rest) := by
  obtain ⟨hsplit, hend⟩ := takeName_split rest
  have hread := symbols?_name hc rest
  generalize rest.drop (takeName rest).length = after at ih hsplit hend hread
  have hfold : fold 't' slot (c :: rest) = fold 't' slot (c :: takeName rest) ++
      fold 't' slot after := by
    rw [← fold_append (by simp) fun _ _ _ => head?_not_isAlpha hend, List.cons_append, ← hsplit]
  cases hlone : lone none (c :: takeName rest) with
  | false =>
    have hne : String.ofList (c :: takeName rest) ≠ "t" := by
      intro heq
      rw [← String.toList_inj, String.toList_ofList] at heq
      rw [heq] at hlone; cases hlone
    have htail : takeName (takeName rest ++ fold 't' slot after) = takeName rest :=
      takeName_append (List.append_nil _).symm (by simp) (takeName_fold hend)
    have hself : fold 't' slot (c :: takeName rest) = c :: takeName rest :=
      foldAfter_eq_self hlone
    refine ih.cons hread ?_
    rw [hfold, hself, List.cons_append, symbols?_word hc htail]
    simp only [foldSymbol, if_neg hne]
  | true =>
    by_cases ht : c :: takeName rest = ['t']
    · rw [ht] at hfold hread
      have hparam : symbols? (fold 't' slot (c :: rest)) =
          if slot < indexBound then (symbols? (fold 't' slot after)).map (.parameter slot :: ·)
          else none := by
        have hlone : fold 't' slot ['t'] = referenceTo slot := List.append_nil _
        rw [hfold, hlone, symbols?_referenceTo]
      by_cases hslot : slot < indexBound
      · rw [if_pos hslot] at hparam
        exact ih.cons hread hparam
      · rw [if_neg hslot] at hparam
        refine Or.inr ⟨fun ss hss => ?_, fun h => absurd h hslot⟩
        rw [hparam] at hss; cases hss
    · refine Or.inr ⟨fun ss hss => ?_, fun _ ss hss => ?_⟩
      · obtain ⟨u, v, huv, hv, hw⟩ := exists_of_lone slot hlone
        rw [hfold, fold, hw, List.append_assoc] at hss
        exact not_apart_of_lone hc huv hv ht hss
      · rw [hread] at hss
        obtain ⟨more, -, rfl⟩ := Option.map_eq_some_iff.1 hss
        refine ⟨_, List.mem_cons_self .., fun heq => ht ?_, by rwa [String.toList_ofList]⟩
        rw [← String.toList_inj, String.toList_ofList] at heq
        exact heq

theorem Folds.of_gap {c : Char} (hgap : isGap c = true) {rest : List Char} (ih : Folds slot rest) :
    Folds slot (c :: rest) := by
  have hc : c.isAlpha = false := (Bool.or_eq_false_iff.1 (isGap_spec hgap).2.2).1
  rcases ih with ih | ih
  · exact Or.inl (by rw [fold_cons hc, symbols?_gap hgap, symbols?_gap hgap, ih])
  · exact Or.inr (by rw [fold_cons hc, symbols?_gap hgap, symbols?_gap hgap]; exact ih)

theorem Folds.of_number {c : Char} {rest after : List Char} {n : Numeral}
    (hnumber : Numeral.unsigned? (c :: rest) = some (n, after)) (ih : Folds slot after) :
    Folds slot (c :: rest) := by
  have hc : c.isAlpha = false := by
    cases hc : c.isAlpha with
    | false => rfl
    | true =>
      have hpoint : c ≠ '.' := by rintro rfl; exact absurd hc (by decide)
      rw [unsigned?_eq_none (not_isDigit_of_isAlpha hc) hpoint] at hnumber; cases hnumber
  have hfold : Numeral.unsigned? (c :: fold 't' slot rest) = some (n, fold 't' slot after) := by
    rw [← fold_cons hc, unsigned?_fold, hnumber]; rfl
  refine ih.cons (symbols?_number hnumber) ?_
  rw [fold_cons hc]
  exact symbols?_number hfold

theorem Folds.of_bracket {rest : List Char}
    (ih : ∀ after : List Char, after.length < rest.length → Folds slot after) :
    Folds slot ('[' :: rest) := by
  have hfold : fold 't' slot ('[' :: rest) = '[' :: fold 't' slot rest := fold_cons (by decide) rest
  rcases symbols?_bracket slot rest with ⟨h, h'⟩ | ⟨i, after, hlt, h, h'⟩
  · exact .of_none h (by rw [hfold]; exact h')
  · exact (ih after hlt).cons h (by rw [hfold]; exact h')

theorem Folds.of_mark {c : Char} {rest : List Char} (hgap : isGap c = false)
    (hnumber : Numeral.unsigned? (c :: rest) = none) (hname : (c.isAlpha || c = '_') = false)
    (hbracket : c ≠ '[') (ih : ∀ extra, Folds slot (rest.drop extra)) : Folds slot (c :: rest) := by
  have hc : c.isAlpha = false := (Bool.or_eq_false_iff.1 hname).1
  have hfold : Numeral.unsigned? (c :: fold 't' slot rest) = none := by
    rw [← fold_cons hc, unsigned?_fold, hnumber]; rfl
  have h := symbols?_mark hgap hnumber hname hbracket
  have h' := symbols?_mark hgap hfold hname hbracket
  rw [mark?_fold] at h'
  cases hmark : mark? c rest.head? with
  | none =>
    rw [hmark] at h h'
    exact .of_none h (by rw [fold_cons hc]; exact h')
  | some found =>
    obtain ⟨s, extra⟩ := found
    obtain ⟨hs, hextra⟩ := mark?_spec hmark
    have hdrop : (fold 't' slot rest).drop extra = fold 't' slot (rest.drop extra) := by
      rcases hextra with rfl | ⟨rfl, d, hd, halpha⟩
      · rfl
      · obtain ⟨more, rfl⟩ := List.head?_eq_some_iff.1 hd
        rw [fold_cons halpha]; rfl
    rw [hmark] at h h'
    refine (ih extra).cons h ?_
    rw [fold_cons hc, foldSymbol_of_not_operand hs, ← hdrop]
    exact h'

/-- **The symbols of a folded text.** -/
theorem fold_symbols? (slot : Nat) (text : List Char) : Folds slot text := by
  match text with
  | [] => exact Or.inl (by rw [fold_nil, symbols?_nil]; rfl)
  | c :: rest =>
    -- the kinds of lexemes in the order in which the lexer tries them
    by_cases hgap : isGap c = true
    · exact (fold_symbols? slot rest).of_gap hgap
    cases hnumber : Numeral.unsigned? (c :: rest) with
    | some found =>
      have hlt : found.2.length ≤ rest.length := (unsigned?_suffix hnumber).length_le
      exact (fold_symbols? slot found.2).of_number hnumber
    | none =>
      by_cases hname : (c.isAlpha || c = '_') = true
      · exact (fold_symbols? slot _).of_name hname
      by_cases hbracket : c = '['
      · subst hbracket
        exact .of_bracket fun after _ => fold_symbols? slot after
      · exact .of_mark (by simpa using hgap) hnumber (by simpa using hname) hbracket
          fun extra => fold_symbols? slot (rest.drop extra)
termination_by text.length
decreasing_by all_goals (simp only [List.length_cons, List.length_drop]; omega)

end

end JetEnergy.Formula
