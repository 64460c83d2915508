import JetEnergy.Proofs.Formula.Accesses

/-!
  Where formulas fail, and why.

  * `FailsAt finish ts e`: the error `e` shows at the end of the formula, or at one
    of the tokens `ts` and for a cause of its own.
  * One lemma for each reader (`layer_error` and the ones after it) says where its
    errors come from; along the recursion of the readers, every one of them fails
    at the tokens that it is given: `layer_failsAt`.
  * `parse_error`: besides, a formula may be followed by a token that does not
    belong to it.
-/
namespace JetEnergy.Formula

open Decimal

/-- A cause that shows inside a construct: neither the end of all tokens nor a
    parenthesis after the whole. -/
def Cause.Inner (cause : Cause) : Prop :=
  cause ≠ .unexpectedEnd ∧ cause ≠ .unmatchedClose

/-- An error of a reader of some tokens: the tokens have come to an end, or one of
    them is where the error shows. -/
inductive FailsAt (finish : Nat) (ts : List Token) : FormulaError → Prop
  | atEnd : FailsAt finish ts ⟨finish, .unexpectedEnd⟩
  | token {t : Token} {cause : Cause} : t ∈ ts → cause.Inner →
      FailsAt finish ts ⟨t.offset, cause⟩

theorem FailsAt.mono {finish : Nat} {ts ts' : List Token} {e : FormulaError}
    (h : FailsAt finish ts e) (hsub : ts ⊆ ts') : FailsAt finish ts' e := by
  cases h with
  | atEnd => exact .atEnd
  | token ht hcause => exact .token (hsub ht) hcause

/-! ## Names -/

theorem resolve_error {scope : Scope} {name : String} {cause : Cause}
    (h : scope.resolve name = .error cause) : cause.Inner := by
  have hvar : ∀ {index : Nat} {cause : Cause}, scope.var name index = .error cause →
      cause.Inner := by
    intro index cause h
    unfold Scope.var at h
    split at h <;> cases h
    simp [Cause.Inner]
  have hmap : ∀ {f : Expr → Expr} {cause : Cause}, (scope.var name 0).map f = .error cause →
      cause.Inner := by
    intro f cause h
    cases hx : scope.var name 0 with
    | error cause' => rw [hx] at h; cases h; exact hvar hx
    | ok x => rw [hx] at h; cases h
  unfold Scope.resolve at h
  split at h
  · exact hvar h
  · split at h
    · cases h
    split at h
    · exact hmap h
    split at h
    · exact hmap h
    · cases h
      simp [Cause.Inner]

theorem callNamed_error {name : String} {args : List Expr} {cause : Cause}
    (h : callNamed name args = .error cause) : cause.Inner := by
  unfold callNamed at h
  split at h
  · cases h
    simp [Cause.Inner]
  · split at h <;> cases h
    simp [Cause.Inner]

/-! ## Where the errors of a reader come from -/

section
variable {scope : Scope} {finish : Nat} {ts : List Token} {e : FormulaError}

theorem layer_error {k : Nat} (hk : k < layers) (h : layer scope finish k ts = .error e) :
    layer scope finish (k + 1) ts = .error e ∨
      ∃ left mid, Reads (layer scope finish (k + 1) ts) left mid ∧
        operands scope finish k left mid = .error e := by
  rw [layer, if_pos hk] at h
  cases hl : layer scope finish (k + 1) ts with
  | error err => rw [hl] at h; exact Or.inl h
  | ok first =>
    obtain ⟨left, mid, hmid⟩ := first
    rw [hl] at h
    dsimp only at h
    cases ho : operands scope finish k left mid with
    | error err => rw [ho] at h; cases h; exact Or.inr ⟨left, mid, ⟨hmid, rfl⟩, ho⟩
    | ok next => rw [ho] at h; cases h

theorem layer_error_signed {k : Nat} (hk : layers ≤ k) (h : layer scope finish k ts = .error e) :
    unary scope finish ts = .error e := by
  rwa [layer, if_neg (Nat.not_lt.2 hk)] at h

theorem operands_error {k : Nat} {left : Expr} (h : operands scope finish k left ts = .error e) :
    ∃ t more, ts = t :: more ∧ (layer scope finish (k + 1) more = .error e ∨
      ∃ left' mid right, Reads (layer scope finish (k + 1) more) right mid ∧
        operands scope finish k left' mid = .error e) := by
  cases ts with
  | nil => rw [operands] at h; cases h
  | cons t more =>
    refine ⟨t, more, rfl, ?_⟩
    rw [operands] at h
    cases hop : operator? k t.symbol with
    | none => simp only [hop] at h; cases h
    | some op =>
      simp only [hop] at h
      cases hl : layer scope finish (k + 1) more with
      | error err => rw [hl] at h; cases h; exact Or.inl rfl
      | ok first =>
        obtain ⟨right, mid, hmid⟩ := first
        rw [hl] at h
        dsimp only at h
        cases ho : operands scope finish k (.binary op left right) mid with
        | error err => rw [ho] at h; cases h; exact Or.inr ⟨_, mid, right, ⟨hmid, rfl⟩, ho⟩
        | ok next => rw [ho] at h; cases h

theorem unary_error (h : unary scope finish ts = .error e) :
    (∃ t more, ts = t :: more ∧ unary scope finish more = .error e) ∨
      power scope finish ts = .error e := by
  cases ts with
  | nil => rw [unary] at h; exact Or.inr h
  | cons t more =>
    rw [unary] at h
    cases hu : unary scope finish more with
    | error err =>
      simp only [hu] at h
      split at h <;> first
        | exact Or.inr h
        | cases h; exact Or.inl ⟨t, more, rfl, hu⟩
    | ok next =>
      simp only [hu] at h
      split at h <;> first
        | exact Or.inr h
        | cases h

theorem power_error (h : power scope finish ts = .error e) :
    primary scope finish ts = .error e ∨
      ∃ base t more, Reads (primary scope finish ts) base (t :: more) ∧
        unary scope finish more = .error e := by
  rw [power] at h
  cases hp : primary scope finish ts with
  | error err => rw [hp] at h; exact Or.inl h
  | ok first =>
    obtain ⟨base, mid, hmid⟩ := first
    rw [hp] at h
    cases mid with
    | nil => cases h
    | cons t more =>
      dsimp only at h
      split at h
      · cases hu : unary scope finish more with
        | error err => rw [hu] at h; cases h; exact Or.inr ⟨base, t, more, ⟨hmid, rfl⟩, hu⟩
        | ok next => rw [hu] at h; cases h
      · cases h

theorem locate_error {α β : Type} {offset : Nat} {r : Except Cause α} {f : α → β}
    (h : (locate offset r).map f = .error e) : ∃ cause, r = .error cause ∧ e = ⟨offset, cause⟩ := by
  cases r with
  | error cause => cases h; exact ⟨cause, rfl, rfl⟩
  | ok a => cases h

theorem primary_error (h : primary scope finish ts = .error e) :
    (ts = [] ∧ e = ⟨finish, .unexpectedEnd⟩) ∨ ∃ t more, ts = t :: more ∧
      ((∃ cause, e = ⟨t.offset, cause⟩ ∧ cause.Inner) ∨
        layer scope finish 0 more = .error e ∨
        ∃ u rest, more = u :: rest ∧ arguments scope finish u.offset rest = .error e) := by
  cases ts with
  | nil =>
    rw [primary] at h
    cases h
    exact Or.inl ⟨rfl, rfl⟩
  | cons t more =>
    refine Or.inr ⟨t, more, rfl, ?_⟩
    obtain ⟨symbol, offset⟩ := t
    rw [primary] at h
    cases symbol with
    | number | parameter => cases h
    | openParen =>
      dsimp only at h
      cases hl : layer scope finish 0 more with
      | error err => rw [hl] at h; cases h; exact Or.inr (Or.inl rfl)
      | ok first =>
        obtain ⟨inner, mid, hmid⟩ := first
        rw [hl] at h
        have hopen : e = ⟨offset, .unmatchedOpen⟩ := by
          cases mid with
          | nil => cases h; rfl
          | cons u rest =>
            dsimp only at h
            split at h <;> cases h
            rfl
        exact Or.inl ⟨_, hopen, by simp [Cause.Inner]⟩
    | name name =>
      have hname : ∀ {left : Rest (⟨.name name, offset⟩ :: more)},
          ((locate offset (scope.resolve name)).map fun a => (a, left)) = .error e →
          ∃ cause, e = ⟨offset, cause⟩ ∧ cause.Inner := by
        intro left h
        obtain ⟨cause, hcause, he⟩ := locate_error h
        exact ⟨cause, he, resolve_error hcause⟩
      cases more with
      | nil => exact Or.inl (hname h)
      | cons u rest =>
        dsimp only at h
        split at h
        · cases ha : arguments scope finish u.offset rest with
          | error err => rw [ha] at h; cases h; exact Or.inr (Or.inr ⟨u, rest, rfl, ha⟩)
          | ok next =>
            rw [ha] at h
            obtain ⟨cause, hcause, he⟩ := locate_error h
            exact Or.inl ⟨cause, he, callNamed_error hcause⟩
        · exact Or.inl (hname h)
    | _ =>
      cases h
      exact Or.inl ⟨_, rfl, by simp [Cause.Inner]⟩

theorem arguments_error {opened : Nat} (h : arguments scope finish opened ts = .error e) :
    someArguments scope finish opened ts = .error e := by
  cases ts with
  | nil => rwa [arguments] at h
  | cons t more =>
    rw [arguments] at h
    split at h
    · cases h
    · exact h

theorem someArguments_error {opened : Nat} (h : someArguments scope finish opened ts = .error e) :
    layer scope finish 0 ts = .error e ∨ e = ⟨opened, .unmatchedOpen⟩ ∨
      ∃ arg t mid, Reads (layer scope finish 0 ts) arg (t :: mid) ∧
        (e = ⟨t.offset, .expectedSeparator t.symbol⟩ ∨
          someArguments scope finish opened mid = .error e) := by
  rw [someArguments] at h
  cases hl : layer scope finish 0 ts with
  | error err => rw [hl] at h; cases h; exact Or.inl rfl
  | ok first =>
    obtain ⟨arg, mid, hmid⟩ := first
    rw [hl] at h
    cases mid with
    | nil => cases h; exact Or.inr (Or.inl rfl)
    | cons t mid =>
      refine Or.inr (Or.inr ⟨arg, t, mid, ⟨hmid, rfl⟩, ?_⟩)
      dsimp only at h
      split at h
      · cases hm : someArguments scope finish opened mid with
        | error err => rw [hm] at h; cases h; exact Or.inr rfl
        | ok next => rw [hm] at h; cases h
      · cases h
      · cases h; exact Or.inl rfl

end

/-! ## Errors at tokens -/

section
variable {scope : Scope} {finish : Nat}

theorem layer_subset (hs : scope.Proper) {k : Nat} {ts rest : List Token} {e : Expr}
    (h : Reads (layer scope finish k ts) e rest) : rest ⊆ ts := by
  obtain ⟨taken, rfl, -⟩ := layer_sound hs h
  exact List.subset_append_right ..

theorem primary_subset (hs : scope.Proper) {ts rest : List Token} {e : Expr}
    (h : Reads (primary scope finish ts) e rest) : rest ⊆ ts := by
  obtain ⟨taken, rfl, -⟩ := primary_sound hs h
  exact List.subset_append_right ..

-- the proofs recur as the readers do, on the same measures
mutual

theorem layer_failsAt (hs : scope.Proper) {k : Nat} {ts : List Token} {e : FormulaError}
    (h : layer scope finish k ts = .error e) : FailsAt finish ts e := by
  rcases Nat.lt_or_ge k layers with hk | hk
  · rcases layer_error hk h with hfirst | ⟨left, mid, hleft, hops⟩
    · exact layer_failsAt hs hfirst
    · have hlt := hleft.property
      exact (operands_failsAt hs hops).mono (layer_subset hs hleft)
  · exact unary_failsAt hs (layer_error_signed hk h)
termination_by (ts.length, layers + 3 - min k layers)

theorem operands_failsAt (hs : scope.Proper) {k : Nat} {left : Expr} {ts : List Token}
    {e : FormulaError} (h : operands scope finish k left ts = .error e) :
    FailsAt finish ts e := by
  obtain ⟨t, more, rfl, hfirst | ⟨left', mid, right, hright, hops⟩⟩ := operands_error h
  · exact (layer_failsAt hs hfirst).mono (List.subset_cons_self ..)
  · have hlt : mid.length < (t :: more).length := Nat.lt_succ_of_lt hright.property
    exact (operands_failsAt hs hops).mono
      (List.subset_cons_of_subset _ (layer_subset hs hright))
termination_by (ts.length, layers + 4)

theorem unary_failsAt (hs : scope.Proper) {ts : List Token} {e : FormulaError}
    (h : unary scope finish ts = .error e) : FailsAt finish ts e := by
  rcases unary_error h with ⟨t, more, rfl, hsigned⟩ | hpower
  · exact (unary_failsAt hs hsigned).mono (List.subset_cons_self ..)
  · exact power_failsAt hs hpower
termination_by (ts.length, 2)

theorem power_failsAt (hs : scope.Proper) {ts : List Token} {e : FormulaError}
    (h : power scope finish ts = .error e) : FailsAt finish ts e := by
  rcases power_error h with hprimary | ⟨base, t, more, hbase, hexponent⟩
  · exact primary_failsAt hs hprimary
  · have hlt : more.length < ts.length := Nat.lt_of_succ_lt hbase.property
    exact (unary_failsAt hs hexponent).mono fun u hu =>
      primary_subset hs hbase (List.mem_cons_of_mem _ hu)
termination_by (ts.length, 1)

theorem primary_failsAt (hs : scope.Proper) {ts : List Token} {e : FormulaError}
    (h : primary scope finish ts = .error e) : FailsAt finish ts e := by
  rcases primary_error h with ⟨-, rfl⟩ | ⟨t, more, rfl, ⟨cause, rfl, hcause⟩ | hinner | hargs⟩
  · exact .atEnd
  · exact .token (List.mem_cons_self ..) hcause
  · exact (layer_failsAt hs hinner).mono (List.subset_cons_self ..)
  · obtain ⟨u, rest, rfl, hargs⟩ := hargs
    exact (arguments_failsAt hs hargs).mono (List.subset_cons_self ..)
termination_by (ts.length, 0)

theorem arguments_failsAt (hs : scope.Proper) {u : Token} {ts : List Token} {e : FormulaError}
    (h : arguments scope finish u.offset ts = .error e) : FailsAt finish (u :: ts) e :=
  someArguments_failsAt hs (arguments_error h)
termination_by (ts.length, layers + 5)

theorem someArguments_failsAt (hs : scope.Proper) {u : Token} {ts : List Token}
    {e : FormulaError} (h : someArguments scope finish u.offset ts = .error e) :
    FailsAt finish (u :: ts) e := by
  rcases someArguments_error h with hfirst | rfl | ⟨arg, t, mid, harg, hnext⟩
  · exact (layer_failsAt hs hfirst).mono (List.subset_cons_self ..)
  · exact .token (List.mem_cons_self ..) (by simp [Cause.Inner])
  · have hsub : t :: mid ⊆ ts := layer_subset hs harg
    rcases hnext with rfl | hmore
    · exact .token (List.mem_cons_of_mem _ (hsub (List.mem_cons_self ..))) (by simp [Cause.Inner])
    · have hlt : mid.length < ts.length := Nat.lt_of_succ_lt harg.property
      exact (someArguments_failsAt hs hmore).mono
        (List.cons_subset_cons _ fun v hv => hsub (List.mem_cons_of_mem _ hv))
termination_by (ts.length, layers + 4)

end

/-- An error of the parser: one of its readers fails, or a whole construct is
    followed by a token that does not belong to it. -/
theorem parse_error (hs : scope.Proper) {ts : List Token} {e : FormulaError}
    (h : parse scope finish ts = .error e) :
    FailsAt finish ts e ∨ ∃ before t after expr, ts = before ++ t :: after ∧
      Derives scope .disjunction (symbols before) expr ∧ e.offset = t.offset ∧
      (t.symbol = .closeParen ∧ e.cause = .unmatchedClose ∨
        e.cause = .unexpectedSymbol t.symbol) := by
  unfold parse at h
  cases hl : layer scope finish 0 ts with
  | error err => rw [hl] at h; cases h; exact Or.inl (layer_failsAt hs hl)
  | ok first =>
    obtain ⟨expr, rest, hrest⟩ := first
    have hread : Reads (layer scope finish 0 ts) expr rest := ⟨hrest, hl⟩
    rw [hl] at h
    cases rest with
    | nil => cases h
    | cons t after =>
      obtain ⟨before, hts, hd⟩ := layer_sound hs hread
      refine Or.inr ⟨before, t, after, expr, hts, hd, ?_⟩
      dsimp only at h
      split at h
      · next hclose => cases h; exact ⟨rfl, Or.inl ⟨hclose, rfl⟩⟩
      · cases h; exact ⟨rfl, Or.inr rfl⟩

end

/-! ## Places -/

/-- Each token starts with a character of the text. -/
theorem Lexed.at {source after text : List Char} {offset : Nat} {ts : List Token}
    (h : Lexed after offset text ts) (hplace : At source offset (text ++ after)) :
    ∀ t ∈ ts, ∃ c rest, At source t.offset (c :: rest) := by
  induction h with
  | nil => simp
  | @gap offset g text ts _ _ ih => exact ih (hplace.append (w := [g]))
  | @lexeme offset w text s ts hw _ _ ih =>
    rw [List.append_assoc] at hplace
    rintro t (_ | ⟨_, ht⟩)
    · obtain ⟨c, tail, rfl, -⟩ := hw.head
      exact ⟨c, tail ++ (text ++ after), hplace⟩
    · exact ih hplace.append t ht

section
variable {source : List Char} {ts : List Token} {e : FormulaError}

theorem at_of_tokens (h : tokens source = .ok ts) :
    ∀ t ∈ ts, ∃ c rest, At source t.offset (c :: rest) :=
  (tokensFrom_ok_iff.1 h).at (by rw [List.append_nil]; exact At.zero source)

/-- The lexer stops before a fault. -/
theorem stopped_of_tokens (h : tokens source = .error e) :
    ∃ before after ts, source = before ++ after ∧ e.offset = Text.Utf8.size before ∧
      Lexed after 0 before ts ∧ Fault after e.cause := by
  obtain ⟨before, after, ts, hsource, hlexed, hfault, hoffset⟩ := tokensFrom_error_iff.1 h
  exact ⟨before, after, ts, hsource, by rw [hoffset, Nat.zero_add], hlexed, hfault⟩

/-- An error of the parser shows at the end of the text, or at a token for another
    cause than the end. -/
theorem parse_error_place {scope : Scope} (hs : scope.Proper) (hts : tokens source = .ok ts)
    (h : parse scope (Text.Utf8.size source) ts = .error e) :
    e = ⟨Text.Utf8.size source, .unexpectedEnd⟩ ∨
      (∃ t ∈ ts, e.offset = t.offset) ∧ e.cause ≠ .unexpectedEnd := by
  rcases parse_error hs h with hfails | ⟨before, t, after, expr, rfl, -, hoffset, hcause⟩
  · cases hfails with
    | atEnd => exact Or.inl rfl
    | token ht hcause => exact Or.inr ⟨⟨_, ht, rfl⟩, hcause.1⟩
  · refine Or.inr ⟨⟨t, by simp, hoffset⟩, ?_⟩
    rcases hcause with ⟨-, hcause⟩ | hcause <;> rw [hcause] <;> exact nofun

theorem parse_error_end_iff {scope : Scope} (hs : scope.Proper) (hts : tokens source = .ok ts)
    (h : parse scope (Text.Utf8.size source) ts = .error e) :
    e.offset = Text.Utf8.size source ↔ e.cause = .unexpectedEnd := by
  rcases parse_error_place hs hts h with rfl | ⟨⟨t, ht, hoffset⟩, hcause⟩
  · exact ⟨fun _ => rfl, fun _ => rfl⟩
  · obtain ⟨c, rest, hplace⟩ := at_of_tokens hts t ht
    have hlt := hplace.lt_size
    exact ⟨fun hend => absurd hend (by omega), fun hend => absurd hend hcause⟩

/-- A formula that does not compile has an arity that is not supported, a fault
    that stops the lexer, or tokens that do not parse. -/
theorem compile_error_cases {arity : Nat} (h : compile source arity = .error e) :
    e = ⟨0, .unsupportedArity arity⟩ ∨ tokens source = .error e ∨
      ∃ ts, tokens source = .ok ts ∧
        parse (.standard arity) (Text.Utf8.size source) ts = .error e := by
  unfold compile at h
  split at h
  · right
    unfold treeOf at h
    cases hts : tokens source with
    | error err =>
      rw [hts] at h
      cases h
      exact Or.inl rfl
    | ok ts =>
      rw [hts] at h
      dsimp only at h
      cases hparse : parse (.standard arity) (Text.Utf8.size source) ts with
      | ok tree => rw [hparse] at h; cases h
      | error err =>
        rw [hparse] at h
        cases h
        exact Or.inr ⟨ts, rfl, hparse⟩
  · cases h
    exact Or.inl rfl

end

/-- **Compiling reads within bounds, and fails at a place of the formula.**  Reading
    by positions in the bytes, no access is past the end and no cut inside a
    character, and the tree or the error is that of the formula.  An error shows at
    a place where the text can be cut: at its start if the arity is not supported,
    where lexing stops before a fault, at one of the tokens or at the end of the
    text.  The parser reports the end of the text exactly if it is an unexpected
    one, and a closing parenthesis as unmatched only if the tokens before it are a
    complete expression. -/
theorem compile_fails_in_place (source : List Char) (arity : Nat) :
    compileAt source arity = .ok ((compile source arity).map (·.tree)) ∧
    (∀ e, compile source arity = .error e →
      e.offset ≤ Text.Utf8.size source ∧ CharBoundary source e.offset ∧
      (e = ⟨0, .unsupportedArity arity⟩ ∨
        (∃ before after ts, source = before ++ after ∧ e.offset = Text.Utf8.size before ∧
          Lexed after 0 before ts ∧ Fault after e.cause) ∨
        ∃ ts, tokens source = .ok ts ∧
          ((∃ t ∈ ts, e.offset = t.offset) ∨ e.offset = Text.Utf8.size source))) ∧
    (∀ ts e, tokens source = .ok ts →
      parse (.standard arity) (Text.Utf8.size source) ts = .error e →
      (e.offset = Text.Utf8.size source ↔ e.cause = .unexpectedEnd) ∧
      (e.cause = .unmatchedClose → ∃ before t after expr, ts = before ++ t :: after ∧
        t.symbol = .closeParen ∧ e.offset = t.offset ∧
        Derives (.standard arity) .disjunction (symbols before) expr)) := by
  have hs := Scope.standard_proper arity
  refine ⟨compileAt_eq source arity, fun e h => ?place, fun ts e hts h =>
    ⟨parse_error_end_iff hs hts h, fun hclose => ?unmatched⟩⟩
  case place =>
    rcases compile_error_cases h with rfl | hlex | ⟨ts, hts, hparse⟩
    · exact ⟨Nat.zero_le _, .zero source, Or.inl rfl⟩
    · obtain ⟨before, after, ts, hsource, hoffset, hlexed, hfault⟩ := stopped_of_tokens hlex
      have hplace : At source e.offset after := ⟨before, hsource, hoffset.symm⟩
      exact ⟨hplace.le_size, hplace.charBoundary,
        Or.inr (Or.inl ⟨before, after, ts, hsource, hoffset, hlexed, hfault⟩)⟩
    · rcases parse_error_place hs hts hparse with rfl | ⟨⟨t, ht, hoffset⟩, -⟩
      · have hend : At source (Text.Utf8.size source) [] := ⟨source, by simp, rfl⟩
        exact ⟨hend.le_size, hend.charBoundary, Or.inr (Or.inr ⟨ts, hts, Or.inr rfl⟩)⟩
      · obtain ⟨c, rest, hplace⟩ := at_of_tokens hts t ht
        rw [← hoffset] at hplace
        exact ⟨hplace.le_size, hplace.charBoundary,
          Or.inr (Or.inr ⟨ts, hts, Or.inl ⟨t, ht, hoffset⟩⟩)⟩
  case unmatched =>
    rcases parse_error hs h with hfails | ⟨before, t, after, expr, hsplit, hd, hoffset, hcause⟩
    · cases hfails with
      | atEnd => cases hclose
      | token ht hcause => exact absurd hclose hcause.2
    · rcases hcause with ⟨ht, -⟩ | hcause
      · exact ⟨before, t, after, expr, hsplit, ht, hoffset, hd⟩
      · rw [hcause] at hclose; cases hclose

/-- A stray character of two bytes at the end, and a parenthesis that closes
    nothing. -/
theorem compile_fails_in_place_of_stray_and_close :
    (compile "1+é".toList 1 = .error ⟨2, .strayCharacter 'é'⟩ ∧
      2 ≤ Text.Utf8.size "1+é".toList ∧ CharBoundary "1+é".toList 2) ∧
    ∃ ts e, tokens "x)".toList = .ok ts ∧
      parse (.standard 1) (Text.Utf8.size "x)".toList) ts = .error e ∧
      e.offset ≠ Text.Utf8.size "x)".toList ∧
      ∃ before t after expr, ts = before ++ t :: after ∧ t.symbol = .closeParen ∧
        e.offset = t.offset ∧ Derives (.standard 1) .disjunction (symbols before) expr := by
  have hstray : compile "1+é".toList 1 = .error ⟨2, .strayCharacter 'é'⟩ := by
    with_unfolding_all rfl
  have htokens : tokens "x)".toList = .ok [⟨.name "x", 0⟩, ⟨.closeParen, 1⟩] := by
    with_unfolding_all rfl
  have hclose : parse (.standard 1) (Text.Utf8.size "x)".toList)
      [⟨.name "x", 0⟩, ⟨.closeParen, 1⟩] = .error ⟨1, .unmatchedClose⟩ := by
    have hname : Derives (.standard 1) .disjunction [.name "x"] (.var 0) :=
      .disjunction_of_signed (.signed_of_primary (.name (.var rfl Nat.one_pos)))
    have hread : Reads (layer (.standard 1) (Text.Utf8.size "x)".toList) 0
        ([⟨.name "x", 0⟩] ++ [⟨.closeParen, 1⟩])) (.var 0) [⟨.closeParen, 1⟩] :=
      (hname.reads (Scope.standard_proper 1)).whole (Nat.zero_le _) rfl
        (stops_of_mark (Or.inl rfl) 0 [])
    rw [List.singleton_append] at hread
    obtain ⟨_, hread⟩ := hread
    rw [parse, hread]
  obtain ⟨hle, hboundary, -⟩ := (compile_fails_in_place "1+é".toList 1).2.1 _ hstray
  obtain ⟨hend, hunmatched⟩ := (compile_fails_in_place "x)".toList 1).2.2 _ _ htokens hclose
  exact ⟨⟨hstray, hle, hboundary⟩, _, _, htokens, hclose, (fun h => nomatch hend.1 h),
    hunmatched rfl⟩

end JetEnergy.Formula
