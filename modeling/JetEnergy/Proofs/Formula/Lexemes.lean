import JetEnergy.Proofs.Formula.Lexing

/-!
  The lexemes of a formula.

  * `Lexeme w s`: the text `w` is a lexeme, and it reads as the symbol `s`.
  * `lexeme_ok_iff`: the lexer takes the longest lexeme that a text starts with.
  * `Fault text cause`: `text` starts with no lexeme, for the given cause.
  * `lexeme_error_iff`: the lexer fails at the faults, and nowhere else.
-/
namespace JetEnergy.Formula

open Decimal

/-! ## Names -/

/-- The texts that a name goes on with. -/
inductive NameTail : List Char → Prop
  | nil : NameTail []
  | char {c : Char} {tail : List Char} :
      (c.isAlphanum || c = '_') = true → NameTail tail → NameTail (c :: tail)
  | colons {tail : List Char} : NameTail tail → NameTail (':' :: ':' :: tail)

theorem nameTail_takeName (rest : List Char) : NameTail (takeName rest) := by
  fun_induction takeName rest with
  | case1 rest ih => exact .colons ih
  | case2 c rest hcolons hc ih => exact .char hc ih
  | case3 | case4 => exact .nil

theorem NameTail.takeName_append {tail : List Char} (h : NameTail tail) (after : List Char) :
    takeName (tail ++ after) = tail ++ takeName after := by
  induction h with
  | nil => rfl
  | char hc _ ih => rw [List.cons_append, takeName_cons hc, ih, List.cons_append]
  | colons _ ih => rw [List.cons_append, List.cons_append, takeName, ih]; rfl

/-! ## Marks -/

/-- The operators and punctuation marks. -/
def marks : List (List Char × Symbol) :=
  [(['*', '*'], .power), (['<', '='], .atMost), (['>', '='], .atLeast), (['=', '='], .equal),
    (['!', '='], .unequal), (['&', '&'], .both), (['|', '|'], .either), (['+'], .plus),
    (['-'], .minus), (['*'], .star), (['/'], .slash), (['^'], .power), (['('], .openParen),
    ([')'], .closeParen), ([','], .comma), (['<'], .less), (['>'], .greater), (['!'], .bang)]

/-- What is read as a mark is one of them. -/
theorem mark?_sound {c : Char} {next : Option Char} {s : Symbol} {n : Nat}
    (h : mark? c next = some (s, n)) :
    (n = 0 ∧ ([c], s) ∈ marks) ∨ (n = 1 ∧ ∃ d, next = some d ∧ ([c, d], s) ∈ marks) := by
  unfold mark? at h
  split at h <;> cases h
  all_goals first
    | exact Or.inl ⟨rfl, by simp [marks]⟩
    | exact Or.inr ⟨rfl, _, rfl, by simp [marks]⟩

theorem mark?_pair {c d : Char} {s : Symbol} (h : ([c, d], s) ∈ marks) :
    mark? c (some d) = some (s, 1) := by
  simp only [marks, List.mem_cons, Prod.mk.injEq, List.cons.injEq, List.not_mem_nil, and_true,
    reduceCtorEq, and_false, false_and, or_false] at h
  rcases h with h | h | h | h | h | h | h <;> obtain ⟨⟨rfl, rfl⟩, rfl⟩ := h <;> rfl

/-- A mark of one character is read as itself or starts a mark of two. -/
theorem mark?_single {c : Char} {s : Symbol} (h : ([c], s) ∈ marks) (next : Option Char) :
    mark? c next = some (s, 0) ∨ ∃ s', mark? c next = some (s', 1) := by
  simp only [marks, List.mem_cons, Prod.mk.injEq, List.cons.injEq, List.not_mem_nil, and_true,
    reduceCtorEq, and_false, false_and, or_false, false_or] at h
  rcases h with h | h | h | h | h | h | h | h | h | h | h <;> obtain ⟨rfl, rfl⟩ := h
  -- the second character matters after a star, a comparison and an exclamation mark only
  all_goals try exact Or.inl rfl
  all_goals grind [mark?]

/-- A mark starts with a character of its own. -/
theorem head_of_mem_marks {c : Char} {w : List Char} {s : Symbol} (h : (c :: w, s) ∈ marks) :
    c.isDigit = false ∧ c ≠ '.' ∧ (c.isAlpha || c = '_') = false ∧ c ≠ '[' := by
  have hall : marks.all fun p => p.1.head?.all fun c =>
      !c.isDigit && c ≠ '.' && !(c.isAlpha || c = '_') && c ≠ '[' := by decide
  have hc := List.all_eq_true.1 hall _ h
  simpa only [List.head?_cons, Option.all_some, Bool.and_eq_true, Bool.not_eq_true',
    decide_eq_true_eq, and_assoc] using hc

/-! ## Lexemes -/

/-- The texts that are lexemes, and the symbols they read as. -/
inductive Lexeme : List Char → Symbol → Prop
  | number {w : List Char} {n : Numeral} : NumberText w n → Lexeme w (.number n.toFloat)
  | name {c : Char} {tail : List Char} : (c.isAlpha || c = '_') = true → NameTail tail →
      Lexeme (c :: tail) (.name (String.ofList (c :: tail)))
  | parameter {inner : List Char} {i : Nat} : ']' ∉ inner → IndexText (Text.trim inner) i →
      Lexeme ('[' :: (inner ++ [']'])) (.parameter i)
  | mark {w : List Char} {s : Symbol} : (w, s) ∈ marks → Lexeme w s

/-- What the lexer takes is a lexeme. -/
theorem lexeme_sound {c : Char} {rest : List Char} {s : Symbol} {n : Nat}
    (h : lexeme c rest = .ok (s, n)) :
    ∃ w after, rest = w ++ after ∧ n = w.length ∧ Lexeme (c :: w) s := by
  cases hnumber : Numeral.unsigned? (c :: rest) with
  | some found =>
    obtain ⟨k, after⟩ := found
    rw [lexeme_number hnumber] at h
    obtain ⟨rfl, rfl⟩ := Prod.mk.inj (Except.ok.inj h)
    obtain ⟨w, hsplit, hw⟩ := unsigned?_sound hnumber
    obtain ⟨d, w, rfl, -⟩ := hw.head
    obtain ⟨rfl, rfl⟩ := List.cons.inj hsplit
    exact ⟨w, after, rfl, by simp, .number hw⟩
  | none =>
    by_cases hname : (c.isAlpha || c = '_') = true
    · rw [lexeme_name hname] at h
      obtain ⟨rfl, rfl⟩ := Prod.mk.inj (Except.ok.inj h)
      exact ⟨_, _, (takeName_split rest).1, rfl, .name hname (nameTail_takeName rest)⟩
    by_cases hbracket : c = '['
    · subst hbracket
      by_cases hclose : ']' ∈ rest
      · obtain ⟨inner, after, rfl, hinner⟩ := List.eq_append_cons_of_mem hclose
        rw [lexeme_reference hinner] at h
        split at h
        · next i hi =>
          obtain ⟨rfl, rfl⟩ := Prod.mk.inj (Except.ok.inj h)
          exact ⟨inner ++ [']'], after, by simp, by simp,
            .parameter hinner (index?_eq_some_iff.1 hi)⟩
        · cases h
      · rw [lexeme_unclosed hclose] at h
        cases h
    · rw [lexeme_mark hnumber (by simpa using hname) hbracket] at h
      split at h
      · next found hfound =>
        obtain rfl := Except.ok.inj h
        rcases mark?_sound hfound with ⟨rfl, hmark⟩ | ⟨rfl, d, hd, hmark⟩
        · exact ⟨[], rest, rfl, rfl, .mark hmark⟩
        · obtain ⟨rest, rfl⟩ := List.head?_eq_some_iff.1 hd
          exact ⟨[d], rest, rfl, rfl, .mark hmark⟩
      · cases h

/-- A lexeme is taken as a whole, and nothing else is read in its place. -/
theorem Lexeme.lexeme_append {c : Char} {w : List Char} {s : Symbol} (h : Lexeme (c :: w) s)
    (after : List Char) : ∃ s' n', lexeme c (w ++ after) = .ok (s', n') ∧ w.length ≤ n' ∧
      (n' = w.length → s' = s) := by
  generalize hw : c :: w = text at h
  cases h with
  | number hnumber =>
    subst hw
    obtain ⟨n', after', hread, ⟨u, rfl⟩, hsame⟩ := unsigned?_append hnumber after
    have hlength : (w ++ (u ++ after')).length - after'.length = w.length + u.length := by
      rw [List.length_append, List.length_append]; omega
    refine ⟨_, _, lexeme_number hread, ?_, fun hall => ?_⟩
    · rw [hlength]; exact Nat.le_add_right _ _
    · rw [hlength] at hall
      obtain rfl := List.eq_nil_of_length_eq_zero (l := u) (by omega)
      rw [hsame rfl]
  | name hc htail =>
    obtain ⟨rfl, rfl⟩ := List.cons.inj hw
    refine ⟨_, _, lexeme_name hc _, ?_, fun hlength => ?_⟩
    · rw [htail.takeName_append, List.length_append]; omega
    · rw [htail.takeName_append, List.length_append] at hlength
      rw [htail.takeName_append, List.eq_nil_of_length_eq_zero (l := takeName after) (by omega),
        List.append_nil]
  | @parameter inner i hinner hi =>
    obtain ⟨rfl, rfl⟩ := List.cons.inj hw
    have hread := lexeme_reference hinner after
    rw [index?_eq_some_iff.2 hi] at hread
    exact ⟨.parameter i, inner.length + 1, by simpa using hread, by simp, fun _ => rfl⟩
  | mark hmark =>
    subst hw
    obtain ⟨hdigit, hpoint, hname, hbracket⟩ := head_of_mem_marks hmark
    rw [lexeme_mark (unsigned?_eq_none hdigit hpoint _) hname hbracket]
    match w with
    | [] =>
      rcases mark?_single hmark after.head? with hread | ⟨s', hread⟩
      · exact ⟨s, 0, by rw [List.nil_append, hread], Nat.le_refl _, fun _ => rfl⟩
      · exact ⟨s', 1, by rw [List.nil_append, hread], Nat.zero_le _, by simp⟩
    | [d] =>
      refine ⟨s, 1, ?_, Nat.le_refl _, fun _ => rfl⟩
      rw [List.cons_append, List.head?_cons, mark?_pair hmark]
    | _ :: _ :: _ =>
      have hshort : ∀ p ∈ marks, p.1.length ≤ 2 := by decide
      exact absurd (hshort _ hmark) (by simp)

/-! ## The longest lexeme -/

/-- No lexeme goes on from `w` into the text that follows it. -/
def Longest (w after : List Char) : Prop :=
  ∀ u v s, after = u ++ v → Lexeme (w ++ u) s → u = []

/-- **The lexer takes the longest lexeme** that a text starts with. -/
theorem lexeme_ok_iff {c : Char} {w after : List Char} {s : Symbol} :
    lexeme c (w ++ after) = .ok (s, w.length) ↔
      Lexeme (c :: w) s ∧ Longest (c :: w) after := by
  constructor
  · intro h
    obtain ⟨w', after', hsplit, hlength, hw⟩ := lexeme_sound h
    obtain ⟨rfl, rfl⟩ := List.append_inj hsplit hlength
    refine ⟨hw, ?_⟩
    rintro u v s' rfl hlonger
    rw [List.cons_append] at hlonger
    obtain ⟨s'', n, hread, hle, -⟩ := hlonger.lexeme_append v
    rw [List.append_assoc, h] at hread
    obtain ⟨-, rfl⟩ := Prod.mk.inj (Except.ok.inj hread)
    rw [List.length_append] at hle
    exact List.eq_nil_of_length_eq_zero (by omega)
  · rintro ⟨hw, hlongest⟩
    obtain ⟨s', n, hread, hle, hsame⟩ := hw.lexeme_append after
    obtain ⟨w', after', hsplit, rfl, hw'⟩ := lexeme_sound hread
    obtain ⟨u, rfl⟩ := List.prefix_of_prefix_length_le (List.prefix_append w after)
      (hsplit ▸ List.prefix_append w' after') hle
    rw [List.append_assoc] at hsplit
    obtain rfl := hlongest u after' s' (List.append_cancel_left hsplit) hw'
    rw [List.append_nil] at hread hsame
    rw [hread, hsame rfl]

/-! ## Gaps and lexemes -/

theorem NameTail.no_gap {tail : List Char} (h : NameTail tail) {g : Char} (hg : isGap g = true) :
    g ∉ tail := by
  induction h with
  | nil => exact List.not_mem_nil
  | char hc _ ih =>
    rintro (_ | ⟨_, hmem⟩)
    · obtain ⟨hdigit, -, hname⟩ := isGap_spec hg
      obtain ⟨halpha, hunder⟩ := Bool.or_eq_false_iff.1 hname
      simp [Char.isAlphanum, hdigit, halpha, hunder] at hc
    · exact ih hmem
  | colons _ ih =>
    rintro (_ | ⟨_, _ | ⟨_, hmem⟩⟩)
    · exact absurd hg (by decide)
    · exact absurd hg (by decide)
    · exact ih hmem

/-- What starts with a bracket is a reference. -/
theorem Lexeme.reference {tail : List Char} {s : Symbol} (h : Lexeme ('[' :: tail) s) :
    ∃ inner, tail = inner ++ [']'] ∧ ']' ∉ inner := by
  generalize htext : '[' :: tail = text at h
  cases h with
  | number hnumber =>
    obtain ⟨c, rest, rfl, hc⟩ := hnumber.head
    obtain ⟨rfl, -⟩ := List.cons.inj htext
    exact absurd hc (by decide)
  | name hc =>
    obtain ⟨rfl, -⟩ := List.cons.inj htext
    exact absurd hc (by decide)
  | parameter hinner => exact ⟨_, (List.cons.inj htext).2, hinner⟩
  | mark hmark =>
    subst htext
    exact absurd rfl (head_of_mem_marks hmark).2.2.2

/-- There are no gaps in lexemes, references apart. -/
theorem Lexeme.no_gap {w : List Char} {s : Symbol} (h : Lexeme w s) (hbracket : w.head? ≠ some '[')
    {g : Char} (hg : isGap g = true) : g ∉ w := by
  obtain ⟨hdigit, -, hname⟩ := isGap_spec hg
  cases h with
  | number hnumber =>
    intro hmem
    rcases hnumber.mem hmem with hd | hother
    · rw [hdigit] at hd; cases hd
    · have hall : ∀ c ∈ ['.', 'e', 'E', '+', '-'], isGap c = false := by simp [isGap]
      rw [hall g hother] at hg; cases hg
  | name hc htail =>
    rintro (_ | ⟨_, hmem⟩)
    · rw [hname] at hc; cases hc
    · exact htail.no_gap hg hmem
  | parameter => exact absurd rfl hbracket
  | mark hmark =>
    intro hmem
    have hall : ∀ p ∈ marks, ∀ c ∈ p.1, isGap c = false := by simp [marks, isGap]
    rw [hall _ hmark g hmem] at hg; cases hg

/-- No lexeme starts with a gap. -/
theorem Lexeme.head {w : List Char} {s : Symbol} (h : Lexeme w s) :
    ∃ c tail, w = c :: tail ∧ isGap c = false := by
  have hne : w ≠ [] := by
    rintro rfl
    generalize htext : [] = text at h
    cases h with
    | number hnumber =>
      obtain ⟨c, rest, rfl, -⟩ := hnumber.head
      cases htext
    | name | parameter => cases htext
    | mark hmark =>
      subst htext
      have hall : ∀ p ∈ marks, p.1 ≠ [] := by decide
      exact hall _ hmark rfl
  obtain ⟨c, tail, rfl⟩ := List.exists_cons_of_ne_nil hne
  refine ⟨c, tail, rfl, ?_⟩
  by_cases hbracket : c = '['
  · subst hbracket; decide
  · rw [Bool.eq_false_iff]
    intro hgap
    exact h.no_gap (by simpa using hbracket) hgap (List.mem_cons_self ..)

/-- A lexeme ends at a gap and at the end of the text. -/
theorem Lexeme.longest {w : List Char} {s : Symbol} (h : Lexeme w s) {after : List Char}
    (hafter : ∀ g ∈ after.head?, isGap g = true) : Longest w after := by
  rintro (_ | ⟨g, u⟩) v s' rfl hlonger
  · rfl
  have hg : isGap g = true := hafter g rfl
  obtain ⟨c, tail, rfl, -⟩ := h.head
  by_cases hbracket : c = '['
  · -- a reference ends at its first closing bracket
    subst hbracket
    obtain ⟨inner, rfl, -⟩ := h.reference
    rw [List.cons_append, List.append_assoc] at hlonger
    obtain ⟨inner', hsplit, hinner'⟩ := hlonger.reference
    have hlast : inner' = inner ++ ']' :: (g :: u).dropLast := by
      have hdrop : (inner' ++ [']']).dropLast = inner' := List.dropLast_concat
      rw [← hdrop, ← hsplit, List.dropLast_append_of_ne_nil (by simp)]
      rfl
    exact absurd (by rw [hlast]; simp) hinner'
  · exact absurd (by simp) (hlonger.no_gap (by simpa using hbracket) hg)

/-! ## Faults -/

/-- What starts with no lexeme, and why it does not. -/
inductive Fault : List Char → Cause → Prop
  | unclosed {rest : List Char} : ']' ∉ rest → Fault ('[' :: rest) .openReference
  | badIndex {inner rest : List Char} : ']' ∉ inner → (∀ i, ¬ IndexText (Text.trim inner) i) →
      Fault ('[' :: (inner ++ ']' :: rest)) (.badReference (String.ofList (Text.trim inner)))
  | stray {c : Char} {rest : List Char} : isGap c = false → c ≠ '[' →
      (∀ u v s, rest = u ++ v → ¬ Lexeme (c :: u) s) → Fault (c :: rest) (.strayCharacter c)

/-- No fault is a gap. -/
theorem Fault.head {text : List Char} {cause : Cause} (h : Fault text cause) :
    ∃ c rest, text = c :: rest ∧ isGap c = false := by
  cases h with
  | unclosed | badIndex => exact ⟨_, _, rfl, by decide⟩
  | stray hgap => exact ⟨_, _, rfl, hgap⟩

theorem lexeme_stray {c : Char} {rest : List Char} {cause : Cause} (hbracket : c ≠ '[')
    (h : lexeme c rest = .error cause) : cause = .strayCharacter c := by
  cases hnumber : Numeral.unsigned? (c :: rest) with
  | some found => rw [lexeme_number hnumber] at h; cases h
  | none =>
    by_cases hname : (c.isAlpha || c = '_') = true
    · rw [lexeme_name hname] at h; cases h
    · rw [lexeme_mark hnumber (by simpa using hname) hbracket] at h
      split at h
      · cases h
      · exact (Except.error.inj h).symm

theorem lexeme_fault {c : Char} {rest : List Char} {cause : Cause} (hgap : isGap c = false)
    (h : lexeme c rest = .error cause) : Fault (c :: rest) cause := by
  by_cases hbracket : c = '['
  · subst hbracket
    by_cases hclose : ']' ∈ rest
    · obtain ⟨inner, after, rfl, hinner⟩ := List.eq_append_cons_of_mem hclose
      rw [lexeme_reference hinner] at h
      split at h
      · cases h
      · next hnone =>
        cases h
        refine .badIndex hinner fun i hi => ?_
        rw [index?_eq_some_iff.2 hi] at hnone
        cases hnone
    · rw [lexeme_unclosed hclose] at h
      cases h
      exact .unclosed hclose
  · rw [lexeme_stray hbracket h]
    refine .stray hgap hbracket ?_
    rintro u v s rfl hu
    obtain ⟨s', n, hread, -⟩ := hu.lexeme_append v
    rw [h] at hread; cases hread

/-- **The lexer fails at the faults**, and names their causes. -/
theorem lexeme_error_iff {c : Char} {rest : List Char} {cause : Cause} (hgap : isGap c = false) :
    lexeme c rest = .error cause ↔ Fault (c :: rest) cause := by
  refine ⟨lexeme_fault hgap, fun h => ?_⟩
  cases h with
  | unclosed hclose => exact lexeme_unclosed hclose
  | badIndex hinner hindex =>
    rw [lexeme_reference hinner]
    cases hi : index? (Text.trim _) with
    | none => rfl
    | some i => exact absurd (index?_eq_some_iff.1 hi) (hindex i)
  | stray _ hbracket hlexeme =>
    cases hread : lexeme c rest with
    | error cause => rw [lexeme_stray hbracket hread]
    | ok found =>
      obtain ⟨u, v, hsplit, -, hu⟩ := lexeme_sound hread
      exact absurd hu (hlexeme u v _ hsplit)

end JetEnergy.Formula
