import JetEnergy.Formula.Compile
import JetEnergy.Proofs.Decimal.Numerals
import JetEnergy.Proofs.Formula.Parsing
import JetEnergy.Proofs.Lists

/-!
  The symbols of a text.

  * One lemma for each kind of symbol (`lexeme_number` and the ones like it) says
    what is read at the start of a text.
  * `symbols?` are the symbols of a text without their places; `symbols?_gap` and
    the lemmas like it say what a text gives that starts with a gap or with a
    symbol of each kind.  Nothing after them unfolds the lexer.
  * `treeOf_ok_iff`: the tree of a text is what its symbols derive.
-/
namespace JetEnergy.Formula

open Decimal

/-- The symbols of a text, if it consists of symbols and gaps. -/
def symbols? (text : List Char) : Option (List Symbol) :=
  (tokens text).toOption.map symbols

theorem symbols_map_cons (t : Token) (r : Except FormulaError (List Token)) :
    (r.map (t :: ·)).toOption.map symbols = (r.toOption.map symbols).map (t.symbol :: ·) := by
  cases r <;> rfl

/-- The place where a text stands does not change its symbols. -/
theorem symbols_tokensFrom (offset : Nat) (text : List Char) :
    (tokensFrom offset text).toOption.map symbols = symbols? text := by
  have hplace : ∀ o o' : Nat, (tokensFrom o text).toOption.map symbols =
      (tokensFrom o' text).toOption.map symbols := by
    intro o o'
    fun_induction tokensFrom o text generalizing o' with
    | case1 => rw [tokensFrom]
    | case2 o c rest hgap ih => rw [tokensFrom, if_pos hgap]; exact ih _
    | case3 o c rest hgap cause hlex => rw [tokensFrom, if_neg hgap, hlex]; rfl
    | case4 o c rest hgap symbol extra hlex ih =>
      rw [tokensFrom, if_neg hgap, hlex]
      dsimp only
      rw [symbols_map_cons, symbols_map_cons, ih]
  exact hplace offset 0

theorem symbols?_nil : symbols? [] = some [] := by
  rw [symbols?, tokens, tokensFrom]; rfl

theorem symbols?_gap {c : Char} (h : isGap c = true) (rest : List Char) :
    symbols? (c :: rest) = symbols? rest := by
  rw [symbols?, tokens, tokensFrom, if_pos h, symbols_tokensFrom]

/-- A text whose first character is not part of a gap starts with a lexeme. -/
theorem symbols?_cons {c : Char} (h : isGap c = false) (rest : List Char) :
    symbols? (c :: rest) = match lexeme c rest with
      | .error _ => none
      | .ok (s, extra) => (symbols? (rest.drop extra)).map (s :: ·) := by
  rw [symbols?, tokens, tokensFrom, if_neg (by simp [h])]
  cases lexeme c rest with
  | error cause => rfl
  | ok found =>
    obtain ⟨s, extra⟩ := found
    dsimp only
    rw [symbols_map_cons, symbols_tokensFrom]

/-- White space starts no symbol. -/
theorem isGap_spec {c : Char} (h : isGap c = true) :
    c.isDigit = false ∧ c ≠ '.' ∧ (c.isAlpha || c = '_') = false := by
  simp only [isGap, Bool.or_eq_true, decide_eq_true_eq] at h
  rcases h with (((rfl | rfl) | rfl) | rfl) | rfl <;> decide

/-! ## Numbers -/

theorem lexeme_number {c : Char} {rest after : List Char} {n : Numeral}
    (h : Numeral.unsigned? (c :: rest) = some (n, after)) :
    lexeme c rest = .ok (.number n.toFloat, rest.length - after.length) := by
  rw [lexeme, h]

theorem symbols?_number {c : Char} {rest after : List Char} {n : Numeral}
    (h : Numeral.unsigned? (c :: rest) = some (n, after)) :
    symbols? (c :: rest) = (symbols? after).map (.number n.toFloat :: ·) := by
  have hgap : isGap c = false := by
    rw [Bool.eq_false_iff]
    intro hgap
    rw [unsigned?_eq_none (isGap_spec hgap).1 (isGap_spec hgap).2.1] at h
    cases h
  rw [symbols?_cons hgap, lexeme_number h]
  obtain ⟨w, rfl⟩ := unsigned?_suffix h
  simp

/-! ## Names -/

theorem lexeme_name {c : Char} (h : (c.isAlpha || c = '_') = true) (rest : List Char) :
    lexeme c rest = .ok (.name (String.ofList (c :: takeName rest)), (takeName rest).length) := by
  have hpoint : c ≠ '.' := by rintro rfl; revert h; decide
  have hdigit : c.isDigit = false := by
    rcases Bool.or_eq_true_iff.1 h with h | h
    · exact not_isDigit_of_isAlpha h
    · rw [of_decide_eq_true h]; decide
  rw [lexeme, unsigned?_eq_none hdigit hpoint]
  simp only [h, if_true]

theorem symbols?_name {c : Char} (h : (c.isAlpha || c = '_') = true) (rest : List Char) :
    symbols? (c :: rest) = (symbols? (rest.drop (takeName rest).length)).map
      (.name (String.ofList (c :: takeName rest)) :: ·) := by
  have hgap : isGap c = false := by
    rw [Bool.eq_false_iff]
    intro hgap
    rw [(isGap_spec hgap).2.2] at h
    cases h
  rw [symbols?_cons hgap, lexeme_name h]

theorem takeName_cons {c : Char} (h : (c.isAlphanum || c = '_') = true) (rest : List Char) :
    takeName (c :: rest) = c :: takeName rest := by
  rw [takeName, if_pos h]
  rintro rest' rfl -
  exact absurd h (by decide)

theorem takeName_eq_nil {c : Char} {rest : List Char} (h : (c.isAlphanum || c = '_') = false)
    (hcolon : c = ':' → rest.head? ≠ some ':') : takeName (c :: rest) = [] := by
  rw [takeName, if_neg (by simp [h])]
  rintro rest' rfl rfl
  exact hcolon rfl rfl

/-- A name and what follows it. -/
theorem takeName_split (rest : List Char) :
    rest = takeName rest ++ rest.drop (takeName rest).length ∧
      takeName (rest.drop (takeName rest).length) = [] := by
  fun_induction takeName rest with
  | case1 rest ih => simpa using ih
  | case2 c rest hcolons h ih => simpa using ih
  | case3 c rest hcolons h =>
    refine ⟨rfl, ?_⟩
    rw [List.length_nil, List.drop_zero, takeName, if_neg h]
    exact hcolons
  | case4 => exact ⟨rfl, rfl⟩

/-- A name may be cut before anything but a colon. -/
theorem takeName_append {rest u v b : List Char} (h : takeName rest = u ++ v)
    (hv : v.head? ≠ some ':') (hb : takeName b = []) : takeName (u ++ b) = u := by
  fun_induction takeName rest generalizing u with
  | case1 rest ih =>
    match u with
    | [] => exact hb
    | [x] => cases h; exact absurd rfl hv
    | x :: y :: u =>
      simp only [List.cons_append, List.cons.injEq] at h
      obtain ⟨rfl, rfl, h⟩ := h
      rw [List.cons_append, List.cons_append, takeName, ih h]
  | case2 c rest hcolons hc ih =>
    cases u with
    | nil => exact hb
    | cons x u =>
      simp only [List.cons_append, List.cons.injEq] at h
      obtain ⟨rfl, h⟩ := h
      rw [List.cons_append, takeName_cons hc, ih h]
  | case3 c rest hcolons hc =>
    obtain ⟨rfl, -⟩ := List.append_eq_nil_iff.1 h.symm
    exact hb
  | case4 =>
    obtain ⟨rfl, -⟩ := List.append_eq_nil_iff.1 h.symm
    exact hb

/-- The characters that a name goes on with. -/
theorem takeName_head {rest v : List Char} {d : Char} (h : takeName rest = d :: v) :
    (d.isAlphanum || d = '_') = true ∨ d = ':' := by
  rw [takeName.eq_def] at h
  split at h
  · cases h; exact Or.inr rfl
  · split at h
    · next hc => cases h; exact Or.inl hc
    · cases h
  · cases h

theorem head?_not_isAlpha {text : List Char} (h : takeName text = []) :
    text.head?.any Char.isAlpha = false := by
  cases text with
  | nil => rfl
  | cons c rest =>
    cases hc : c.isAlpha with
    | false => exact hc
    | true => rw [takeName_cons (by simp [Char.isAlphanum, hc])] at h; cases h

theorem symbols?_word {c : Char} (hc : (c.isAlpha || c = '_') = true) {tail b : List Char}
    (h : takeName (tail ++ b) = tail) :
    symbols? (c :: (tail ++ b)) =
      (symbols? b).map (.name (String.ofList (c :: tail)) :: ·) := by
  rw [symbols?_name hc, h, List.drop_left]

/-! ## References -/

theorem takeWhile_bracket {inner : List Char} (h : ']' ∉ inner) (after : List Char) :
    (inner ++ ']' :: after).takeWhile (· ≠ ']') = inner := by
  rw [List.takeWhile_append_of_pos]
  · simp
  · intro c hc; simpa using fun heq : c = ']' => h (heq ▸ hc)

theorem lexeme_reference {inner : List Char} (h : ']' ∉ inner) (after : List Char) :
    lexeme '[' (inner ++ ']' :: after) = match index? (Text.trim inner) with
      | some i => .ok (.parameter i, inner.length + 1)
      | none => .error (.badReference (String.ofList (Text.trim inner))) := by
  rw [lexeme, unsigned?_eq_none (by decide) (by decide)]
  simp only [reference, takeWhile_bracket h]
  cases index? (Text.trim inner) <;> simp

theorem lexeme_unclosed {rest : List Char} (h : ']' ∉ rest) :
    lexeme '[' rest = .error .openReference := by
  have hinner : (rest ++ []).takeWhile (· ≠ ']') = rest ++ [].takeWhile (· ≠ ']') := by
    refine List.takeWhile_append_of_pos fun c hc => ?_
    simpa using fun heq : c = ']' => h (heq ▸ hc)
  rw [List.append_nil, List.takeWhile_nil, List.append_nil] at hinner
  rw [lexeme, unsigned?_eq_none (by decide) (by decide)]
  simp only [reference, hinner, if_true]
  rfl

theorem symbols?_reference {inner : List Char} (h : ']' ∉ inner) (after : List Char) :
    symbols? ('[' :: (inner ++ ']' :: after)) =
      (index? (Text.trim inner)).bind fun i => (symbols? after).map (.parameter i :: ·) := by
  rw [symbols?_cons (by decide), lexeme_reference h]
  cases index? (Text.trim inner) <;> simp

theorem symbols?_unclosed {rest : List Char} (h : ']' ∉ rest) : symbols? ('[' :: rest) = none := by
  rw [symbols?_cons (by decide), lexeme_unclosed h]

theorem mem_trim {text : List Char} {c : Char} (h : c ∈ text) (hc : Text.isBlank c = false) :
    c ∈ Text.trim text := by
  unfold Text.trim Text.trimEnd
  exact List.mem_reverse.2 (mem_dropWhile (List.mem_reverse.2 (mem_dropWhile h hc)) hc)

theorem trim_eq_self {text : List Char} (h : ∀ c ∈ text, Text.isBlank c = false) :
    Text.trim text = text := by
  have hdrop : ∀ {l : List Char}, (∀ c ∈ l, Text.isBlank c = false) →
      l.dropWhile Text.isBlank = l := by
    intro l hl
    cases l with
    | nil => rfl
    | cons c l => exact List.dropWhile_cons_of_neg (by simp [hl c (List.mem_cons_self ..)])
  rw [Text.trim, Text.trimEnd, hdrop h, hdrop fun c hc => h c (List.mem_reverse.1 hc),
    List.reverse_reverse]

theorem index?_toDigits (slot : Nat) : index? (Text.trim (Nat.toDigits 10 slot)) =
    if slot < indexBound then some slot else none := by
  have hall : AllDigits (Nat.toDigits 10 slot) := fun c hc => isDigit_of_mem_digits hc
  rw [trim_eq_self fun c hc => not_isBlank_of_isDigit (hall c hc),
    hall.index?_eq Nat.toDigits_ne_nil, natOfDigits_toDigits]

theorem symbols?_referenceTo (slot : Nat) (rest : List Char) :
    symbols? (referenceTo slot ++ rest) =
      if slot < indexBound then (symbols? rest).map (.parameter slot :: ·) else none := by
  have hread := symbols?_reference (not_mem_digits slot (c := ']') (by decide)) rest
  rw [index?_toDigits] at hread
  have htext : referenceTo slot ++ rest = '[' :: (Nat.toDigits 10 slot ++ ']' :: rest) := by
    simp [referenceTo]
  rw [htext, hread]
  split <;> rfl

/-! ## Marks -/

theorem lexeme_mark {c : Char} {rest : List Char}
    (hnumber : Numeral.unsigned? (c :: rest) = none) (hname : (c.isAlpha || c = '_') = false)
    (hbracket : c ≠ '[') :
    lexeme c rest = match mark? c rest.head? with
      | some found => .ok found
      | none => .error (.strayCharacter c) := by
  rw [lexeme, hnumber]
  simp only [hname, if_neg hbracket]
  rfl

/-- What starts with no gap, number, name or reference starts with a mark. -/
theorem symbols?_mark {c : Char} {rest : List Char} (hgap : isGap c = false)
    (hnumber : Numeral.unsigned? (c :: rest) = none) (hname : (c.isAlpha || c = '_') = false)
    (hbracket : c ≠ '[') :
    symbols? (c :: rest) = (mark? c rest.head?).bind fun found =>
      (symbols? (rest.drop found.2)).map (found.1 :: ·) := by
  rw [symbols?_cons hgap, lexeme_mark hnumber hname hbracket]
  cases mark? c rest.head? <;> rfl

/-! ## Trees -/

/-- **The tree of a text** is what its symbols derive. -/
theorem treeOf_ok_iff {scope : Scope} (hs : scope.Proper) {source : List Char} {e : Expr} :
    treeOf scope source = .ok e ↔
      ∃ ss, symbols? source = some ss ∧ Derives scope .disjunction ss e := by
  unfold treeOf symbols?
  cases tokens source with
  | error err => simp [Except.toOption]
  | ok ts =>
    simp only [Except.toOption, Option.map_some, Option.some.injEq, exists_eq_left']
    exact parse_ok_iff hs

end JetEnergy.Formula
