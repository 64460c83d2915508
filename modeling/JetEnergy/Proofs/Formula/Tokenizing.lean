import JetEnergy.Proofs.Formula.Lexemes

/-!
  A formula and its tokens.

  * `Lexed after offset text ts`: `text`, which starts at byte `offset` and goes
    on with `after`, consists of gaps and of the lexemes that `ts` are read from.
  * `tokensFrom_ok_iff` and `tokensFrom_error_iff`: the lexer reads all of a text,
    or all that stands before a fault.
  * `spell` writes lexemes with the gaps between them; `lexed_spell`: they are read
    as they are written.
  * `tokens_exact`: the lexer is exact and lossless.
-/
namespace JetEnergy.Formula

open Decimal

theorem size_append (a b : List Char) :
    Text.Utf8.size (a ++ b) = Text.Utf8.size a + Text.Utf8.size b := by
  induction a with
  | nil => simp [Text.Utf8.size]
  | cons c a ih => rw [List.cons_append, Text.Utf8.size, ih, Text.Utf8.size, Nat.add_assoc]

/-! ## Lexed texts -/

/-- The tokens of a text that starts at byte `offset` and goes on with `after`.
    Gaps have none; every lexeme has one, and it is the longest in its place. -/
inductive Lexed (after : List Char) : Nat → List Char → List Token → Prop
  | nil {offset : Nat} : Lexed after offset [] []
  | gap {offset : Nat} {g : Char} {text : List Char} {ts : List Token} : isGap g = true →
      Lexed after (offset + g.utf8Size) text ts → Lexed after offset (g :: text) ts
  | lexeme {offset : Nat} {w text : List Char} {s : Symbol} {ts : List Token} :
      Lexeme w s → Longest w (text ++ after) →
      Lexed after (offset + Text.Utf8.size w) text ts →
      Lexed after offset (w ++ text) (⟨s, offset⟩ :: ts)

theorem tokensFrom_gap {g : Char} (h : isGap g = true) (offset : Nat) (text : List Char) :
    tokensFrom offset (g :: text) = tokensFrom (offset + g.utf8Size) text := by
  rw [tokensFrom, if_pos h]

theorem tokensFrom_lexeme {w after : List Char} {s : Symbol} (hw : Lexeme w s)
    (hlongest : Longest w after) (offset : Nat) :
    tokensFrom offset (w ++ after) =
      (tokensFrom (offset + Text.Utf8.size w) after).map (⟨s, offset⟩ :: ·) := by
  obtain ⟨c, tail, rfl, hgap⟩ := hw.head
  rw [List.cons_append, tokensFrom, if_neg (by simp [hgap]), lexeme_ok_iff.2 ⟨hw, hlongest⟩]
  dsimp only
  rw [List.take_left, List.drop_left]

theorem Fault.tokensFrom_eq {text : List Char} {cause : Cause} (h : Fault text cause)
    (offset : Nat) : tokensFrom offset text = .error ⟨offset, cause⟩ := by
  obtain ⟨c, rest, rfl, hgap⟩ := h.head
  rw [tokensFrom, if_neg (by simp [hgap]), (lexeme_error_iff hgap).2 h]

/-- Every text is lexed up to its end or up to a fault. -/
theorem exists_lexed (offset : Nat) (text : List Char) :
    ∃ before after ts, text = before ++ after ∧ Lexed after offset before ts ∧
      (after = [] ∨ ∃ cause, Fault after cause) := by
  fun_induction tokensFrom offset text with
  | case1 offset => exact ⟨[], [], [], rfl, .nil, Or.inl rfl⟩
  | case2 offset g rest hgap ih =>
    obtain ⟨before, after, ts, rfl, hlexed, hend⟩ := ih
    exact ⟨g :: before, after, ts, rfl, .gap hgap hlexed, hend⟩
  | case3 offset c rest hgap cause hread =>
    exact ⟨[], c :: rest, [], rfl, .nil,
      Or.inr ⟨cause, lexeme_fault (by simpa using hgap) hread⟩⟩
  | case4 offset c rest hgap s n hread ih =>
    obtain ⟨w, rest, rfl, rfl, -⟩ := lexeme_sound hread
    rw [List.take_left, List.drop_left] at ih
    obtain ⟨before, after, ts, rfl, hlexed, hend⟩ := ih
    obtain ⟨hw, hlongest⟩ := lexeme_ok_iff.1 hread
    exact ⟨c :: w ++ before, after, _, by simp, .lexeme hw hlongest hlexed, hend⟩

section
variable {after : List Char} {offset : Nat} {text : List Char} {ts : List Token}

/-- What is read of a text is read before what follows it. -/
theorem Lexed.tokensFrom_append (h : Lexed after offset text ts) :
    tokensFrom offset (text ++ after) =
      (tokensFrom (offset + Text.Utf8.size text) after).map (ts ++ ·) := by
  induction h with
  | nil =>
    rw [List.nil_append, Text.Utf8.size, Nat.add_zero]
    cases tokensFrom _ after <;> rfl
  | gap hg _ ih =>
    rw [List.cons_append, tokensFrom_gap hg, ih, Text.Utf8.size, Nat.add_assoc]
  | lexeme hw hlongest _ ih =>
    rw [List.append_assoc, tokensFrom_lexeme hw hlongest, ih, size_append, Nat.add_assoc]
    cases tokensFrom _ after <;> rfl

theorem Lexed.tokensFrom_eq (h : Lexed [] offset text ts) : tokensFrom offset text = .ok ts := by
  have hread := h.tokensFrom_append
  rw [List.append_nil, tokensFrom] at hread
  rw [hread, Except.map, List.append_nil]

theorem Lexed.tokensFrom_fault (h : Lexed after offset text ts) {cause : Cause}
    (hfault : Fault after cause) :
    tokensFrom offset (text ++ after) = .error ⟨offset + Text.Utf8.size text, cause⟩ := by
  rw [h.tokensFrom_append, hfault.tokensFrom_eq, Except.map]

/-- **The lexer succeeds** on the texts that consist of gaps and lexemes. -/
theorem tokensFrom_ok_iff : tokensFrom offset text = .ok ts ↔ Lexed [] offset text ts := by
  refine ⟨fun h => ?_, Lexed.tokensFrom_eq⟩
  obtain ⟨before, after, ts', rfl, hlexed, rfl | ⟨cause, hfault⟩⟩ := exists_lexed offset text
  · rw [List.append_nil, hlexed.tokensFrom_eq] at h
    rwa [List.append_nil, ← Except.ok.inj h]
  · rw [hlexed.tokensFrom_fault hfault] at h
    cases h

/-- **The lexer fails** on the texts that consist of gaps and lexemes up to a
    fault. -/
theorem tokensFrom_error_iff {e : FormulaError} :
    tokensFrom offset text = .error e ↔
      ∃ before after ts, text = before ++ after ∧ Lexed after offset before ts ∧
        Fault after e.cause ∧ e.offset = offset + Text.Utf8.size before := by
  constructor
  · intro h
    obtain ⟨before, after, ts, rfl, hlexed, rfl | ⟨cause, hfault⟩⟩ := exists_lexed offset text
    · rw [List.append_nil, hlexed.tokensFrom_eq] at h
      cases h
    · rw [hlexed.tokensFrom_fault hfault] at h
      cases h
      exact ⟨before, after, ts, rfl, hlexed, hfault, rfl⟩
  · rintro ⟨before, after, ts, rfl, hlexed, hfault, hoffset⟩
    rw [hlexed.tokensFrom_fault hfault, ← hoffset]

/-- A text that is read before a fault is read the same way on its own. -/
theorem Lexed.alone (h : Lexed after offset text ts) : Lexed [] offset text ts := by
  induction h with
  | nil => exact .nil
  | gap hg _ ih => exact .gap hg ih
  | lexeme hw hlongest _ ih =>
    refine .lexeme hw (fun u v s hsplit hu => ?_) ih
    rw [List.append_nil] at hsplit
    exact hlongest u (v ++ after) s (by rw [hsplit, List.append_assoc]) hu

theorem Lexed.gaps {gap : List Char} (hgap : ∀ g ∈ gap, isGap g = true)
    (h : Lexed after (offset + Text.Utf8.size gap) text ts) :
    Lexed after offset (gap ++ text) ts := by
  induction gap generalizing offset with
  | nil => exact h
  | cons g gap ih =>
    obtain ⟨hg, hgap⟩ := List.forall_mem_cons.1 hgap
    rw [Text.Utf8.size, ← Nat.add_assoc] at h
    exact .gap hg (ih hgap h)

/-! ## Places -/

theorem Lexeme.size_pos {w : List Char} {s : Symbol} (h : Lexeme w s) :
    0 < Text.Utf8.size w := by
  obtain ⟨c, tail, rfl, -⟩ := h.head
  exact Nat.lt_of_lt_of_le c.utf8Size_pos (Nat.le_add_right _ _)

theorem Lexed.offset_le (h : Lexed after offset text ts) : ∀ t ∈ ts, offset ≤ t.offset := by
  induction h with
  | nil => simp
  | gap _ _ ih => exact fun t ht => Nat.le_trans (Nat.le_add_right _ _) (ih t ht)
  | lexeme _ _ _ ih =>
    rintro t (_ | ⟨_, ht⟩)
    · exact Nat.le_refl _
    · exact Nat.le_trans (Nat.le_add_right _ _) (ih t ht)

/-- Tokens start at places that grow. -/
theorem Lexed.increasing (h : Lexed after offset text ts) :
    ts.Pairwise fun t u => t.offset < u.offset := by
  induction h with
  | nil => exact .nil
  | gap _ _ ih => exact ih
  | lexeme hw _ hlexed ih =>
    refine .cons (fun t ht => ?_) ih
    exact Nat.lt_of_lt_of_le (Nat.lt_add_of_pos_right hw.size_pos) (hlexed.offset_le t ht)

end

/-! ## Lexemes as they are written -/

/-- A lexeme as it is written, and the gap after it. -/
structure Spelling where
  text : List Char
  symbol : Symbol
  gap : List Char
  reads : Lexeme text symbol
  blank : ∀ g ∈ gap, isGap g = true

/-- The text of lexemes that are written one after the other. -/
def spell : List Spelling → List Char
  | [] => []
  | p :: ps => p.text ++ (p.gap ++ spell ps)

/-- The tokens of lexemes that are written from byte `offset` on. -/
def spelledTokens (offset : Nat) : List Spelling → List Token
  | [] => []
  | p :: ps => ⟨p.symbol, offset⟩ ::
      spelledTokens (offset + Text.Utf8.size p.text + Text.Utf8.size p.gap) ps

/-- Lexemes with gaps between them are read as they are written. -/
theorem lexed_spell {ps : List Spelling} (h : ∀ p ∈ ps.dropLast, p.gap ≠ []) (offset : Nat) :
    Lexed [] offset (spell ps) (spelledTokens offset ps) := by
  induction ps generalizing offset with
  | nil => exact .nil
  | cons p ps ih =>
    have hlast : p.gap = [] → ps = [] := by
      intro hgap
      cases ps with
      | nil => rfl
      | cons q ps => exact absurd hgap (h p (List.mem_cons_self ..))
    refine .lexeme p.reads (p.reads.longest fun g hg => ?_) (.gaps p.blank (ih (fun q hq => ?_) _))
    · cases hgap : p.gap with
      | nil => simp [hgap, hlast hgap, spell] at hg
      | cons c gap =>
        simp only [hgap, List.cons_append, List.head?_cons, Option.mem_def, Option.some.injEq] at hg
        exact p.blank g (by rw [hgap, hg]; exact List.mem_cons_self ..)
    · cases ps with
      | nil => cases hq
      | cons q' ps => exact h q (List.mem_cons_of_mem _ hq)

/-! ## Exactness -/

/-- **The lexer is exact and lossless.**  It reads a formula if and only if that
    consists of gaps and lexemes, each the longest in its place, and then gives
    every lexeme's symbol and place, in order.  Lexemes that are written with
    gaps between them are read as they are written.  What it takes for a number
    is one to the strict reading, with the same value.  Where it fails, it has
    read the text before the place of the error, which on its own gives the
    same tokens. -/
theorem tokens_exact :
    (∀ source ts, tokens source = .ok ts ↔ Lexed [] 0 source ts) ∧
    (∀ source ts, tokens source = .ok ts → ts.Pairwise fun t u => t.offset < u.offset) ∧
    (∀ (lead : List Char) (ps : List Spelling), (∀ g ∈ lead, isGap g = true) →
      (∀ p ∈ ps.dropLast, p.gap ≠ []) →
      tokens (lead ++ spell ps) = .ok (spelledTokens (Text.Utf8.size lead) ps)) ∧
    (∀ text after n, Numeral.unsigned? text = some (n, after) →
      ∃ w, text = w ++ after ∧ NumberText w n ∧ float? w = some n.toFloat) ∧
    (∀ source e, tokens source = .error e →
      ∃ before after ts, source = before ++ after ∧ e.offset = Text.Utf8.size before ∧
        Lexed after 0 before ts ∧ Fault after e.cause ∧ tokens before = .ok ts) := by
  refine ⟨fun source ts => tokensFrom_ok_iff, fun source ts h => ?increasing,
    fun lead ps hlead hspaced => ?spelled, fun text after n h => ?number, fun source e h => ?error⟩
  case increasing => exact (tokensFrom_ok_iff.1 h).increasing
  case spelled =>
    refine tokensFrom_ok_iff.2 (.gaps hlead ?_)
    rw [Nat.zero_add]
    exact lexed_spell hspaced _
  case number =>
    obtain ⟨w, htext, hw⟩ := unsigned?_sound h
    exact ⟨w, htext, hw, float?_of_numberText hw⟩
  case error =>
    obtain ⟨before, after, ts, rfl, hlexed, hfault, hoffset⟩ := tokensFrom_error_iff.1 h
    rw [Nat.zero_add] at hoffset
    exact ⟨before, after, ts, rfl, hoffset, hlexed, hfault, hlexed.alone.tokensFrom_eq⟩

/-- A reference with blanks and a sign, the long one of two marks, a number that
    starts with its point and a name; a number whose exponent is a name, before
    a stray character. -/
theorem tokens_exact_of_all_kinds :
    (tokens " [ +7 ]\t** .5e1 x".toList = .ok [⟨.parameter 7, 1⟩, ⟨.power, 8⟩,
        ⟨.number (Numeral.toFloat ⟨false, 5, 1, 1⟩), 11⟩, ⟨.name "x", 16⟩] ∧
      [⟨.parameter 7, 1⟩, ⟨.power, 8⟩, ⟨.number (Numeral.toFloat ⟨false, 5, 1, 1⟩), 11⟩,
        ⟨.name "x", 16⟩].Pairwise fun t u : Token => t.offset < u.offset) ∧
    (∃ w, "2e $".toList = w ++ "e $".toList ∧ NumberText w ⟨false, 2, 0, 0⟩ ∧
      float? w = some (Numeral.toFloat ⟨false, 2, 0, 0⟩)) ∧
    ∃ before after ts, "2e $".toList = before ++ after ∧ 3 = Text.Utf8.size before ∧
      Lexed after 0 before ts ∧ Fault after (.strayCharacter '$') ∧ tokens before = .ok ts := by
  have hread := tokens_exact.2.2.1 [' ']
    [⟨"[ +7 ]".toList, .parameter 7, ['\t'],
        @Lexeme.parameter " +7 ".toList 7 (by decide)
          (index?_eq_some_iff.1 (by with_unfolding_all rfl)), by simp [isGap]⟩,
      ⟨['*', '*'], .power, [' '], .mark (by simp [marks]), by simp [isGap]⟩,
      ⟨".5e1".toList, .number (Numeral.toFloat ⟨false, 5, 1, 1⟩), [' '],
        .number (@NumberText.point [] ['5'] ['e', '1'] 1 (by decide) (by decide) (by decide)
          (@ExponentText.marked 'e' [] ['1'] false (Or.inl rfl) .none (by decide) (by decide))),
        by simp [isGap]⟩,
      ⟨['x'], .name "x", [], @Lexeme.name 'x' [] (by decide) .nil, by simp⟩]
    (by simp [isGap]) (by simp)
  have hfault : tokens "2e $".toList = .error ⟨3, .strayCharacter '$'⟩ := by
    with_unfolding_all rfl
  exact ⟨⟨hread, tokens_exact.2.1 _ _ hread⟩,
    tokens_exact.2.2.2.1 _ "e $".toList ⟨false, 2, 0, 0⟩ (by with_unfolding_all rfl),
    tokens_exact.2.2.2.2 _ _ hfault⟩

end JetEnergy.Formula
