import JetEnergy.Proofs.Formula.Grammar

/-!
  The parser reads exactly the grammar.

  * `Reads r a rest`: the reader's result `r` is `a`, and `rest` follows.  One
    lemma for each reader (`layer_reads_iff` and the ones after it) says what
    it reads in these terms; nothing after them unfolds a reader.
  * Soundness, along the recursion of the readers: what a reader takes from the
    front of its tokens is a construct of its kind.
  * Completeness, along derivations (`Derives.reads`): a reader takes a
    construct as a whole, if the token after it does not continue it.  A
    construct of layer `k` may be followed by an operator of that layer: it is
    the left operand then, with which `operands` goes on.
  * `parse_iff_derives`: a list of tokens parses to a tree exactly if its
    symbols derive it as a disjunction, and no list derives two trees.
-/
namespace JetEnergy.Formula

/-- The symbols of tokens. -/
abbrev symbols (ts : List Token) : List Symbol :=
  ts.map Token.symbol

/-- A reader's result is `a`, and `rest` follows. -/
def Reads {α : Type} {p : List Token → Prop}
    (r : Except FormulaError (α × { rest : List Token // p rest })) (a : α) (rest : List Token) :
    Prop :=
  ∃ h, r = .ok (a, ⟨rest, h⟩)

theorem Reads.property {α : Type} {p : List Token → Prop}
    {r : Except FormulaError (α × { rest : List Token // p rest })} {a : α} {rest : List Token}
    (h : Reads r a rest) : p rest :=
  h.1

theorem not_reads_error {α : Type} {p : List Token → Prop} {e : FormulaError} {a : α}
    {rest : List Token} :
    ¬ Reads (.error e : Except FormulaError (α × { rest : List Token // p rest })) a rest := by
  rintro ⟨_, h⟩; cases h

theorem reads_ok_iff {α : Type} {p : List Token → Prop} {b a : α} {left : { rest // p rest }}
    {rest : List Token} :
    Reads (.ok (b, left)) a rest ↔ a = b ∧ rest = left.1 := by
  constructor
  · rintro ⟨_, h⟩; cases h; exact ⟨rfl, rfl⟩
  · rintro ⟨rfl, rfl⟩; exact ⟨left.2, rfl⟩

/-- An answer of the scope or of a function, read without taking any further
    token. -/
theorem reads_locate_iff {α β : Type} {p : List Token → Prop} {offset : Nat}
    {r : Except Cause β} {f : β → α} {left : { rest // p rest }} {a : α} {rest : List Token} :
    Reads ((locate offset r).map fun b => (f b, left)) a rest ↔
      ∃ b, r = .ok b ∧ a = f b ∧ rest = left.1 := by
  cases r with
  | error cause => simp [locate, Except.map, not_reads_error]
  | ok b => simp [locate, Except.map, reads_ok_iff]

theorem exists_eq_pair {α β : Type} {a : α} {b : β} {P : α → β → Prop} :
    (∃ x y, (x = a ∧ y = b) ∧ P x y) ↔ P a b := by
  constructor
  · rintro ⟨_, _, ⟨rfl, rfl⟩, h⟩; exact h
  · intro h; exact ⟨a, b, ⟨rfl, rfl⟩, h⟩

/-! ## What each reader reads -/

section
variable {scope : Scope} {finish : Nat}

theorem layer_reads_iff {k : Nat} (hk : k < layers) {ts rest : List Token} {e : Expr} :
    Reads (layer scope finish k ts) e rest ↔
      ∃ left mid, Reads (layer scope finish (k + 1) ts) left mid ∧
        Reads (operands scope finish k left mid) e rest := by
  rw [layer, if_pos hk]
  cases hl : layer scope finish (k + 1) ts with
  | error err => simp [not_reads_error]
  | ok first =>
    obtain ⟨left, mid, hmid⟩ := first
    simp only [reads_ok_iff, exists_eq_pair]
    cases ho : operands scope finish k left mid with
    | error err => simp [not_reads_error]
    | ok next => rw [reads_ok_iff, reads_ok_iff]

theorem layer_reads_signed_iff {k : Nat} (hk : layers ≤ k) {ts rest : List Token} {e : Expr} :
    Reads (layer scope finish k ts) e rest ↔ Reads (unary scope finish ts) e rest := by
  rw [layer, if_neg (Nat.not_lt.2 hk)]

theorem operands_reads_iff_of_stop {k : Nat} {left e : Expr} {ts rest : List Token}
    (h : ∀ t ∈ ts.head?, operator? k t.symbol = none) :
    Reads (operands scope finish k left ts) e rest ↔ e = left ∧ rest = ts := by
  cases ts with
  | nil => rw [operands, reads_ok_iff]
  | cons t ts =>
    rw [operands]
    simp only [h t rfl, reads_ok_iff]

theorem operands_reads_iff_of_operator {k : Nat} {left e : Expr} {t : Token}
    {ts rest : List Token} {op : BinaryOp} (h : operator? k t.symbol = some op) :
    Reads (operands scope finish k left (t :: ts)) e rest ↔
      ∃ right mid, Reads (layer scope finish (k + 1) ts) right mid ∧
        Reads (operands scope finish k (.binary op left right) mid) e rest := by
  rw [operands]
  simp only [h]
  cases hl : layer scope finish (k + 1) ts with
  | error err => simp [not_reads_error]
  | ok first =>
    obtain ⟨right, mid, hmid⟩ := first
    simp only [reads_ok_iff, exists_eq_pair]
    cases ho : operands scope finish k (.binary op left right) mid with
    | error err => simp [not_reads_error]
    | ok next => rw [reads_ok_iff, reads_ok_iff]

theorem unary_reads_iff_of_sign {t : Token} {f : Expr → Expr} (h : Signs t.symbol f)
    {ts rest : List Token} {e : Expr} :
    Reads (unary scope finish (t :: ts)) e rest ↔
      ∃ a, Reads (unary scope finish ts) a rest ∧ e = f a := by
  obtain ⟨symbol, offset⟩ := t
  rw [unary]
  cases hu : unary scope finish ts with
  | error err => cases h <;> simp [not_reads_error]
  | ok next =>
    obtain ⟨a, rest', hrest⟩ := next
    have hcases : ∀ f : Expr → Expr, (∃ b, (b = a ∧ rest = rest') ∧ e = f b) ↔
        e = f a ∧ rest = rest' := by
      intro f
      constructor
      · rintro ⟨_, ⟨rfl, rfl⟩, rfl⟩; exact ⟨rfl, rfl⟩
      · rintro ⟨rfl, rfl⟩; exact ⟨a, ⟨rfl, rfl⟩, rfl⟩
    simp only [reads_ok_iff, hcases]
    cases h <;> simp only [reads_ok_iff, id]

theorem unary_reads_iff_of_no_sign {ts rest : List Token} {e : Expr}
    (h : ∀ t ∈ ts.head?, t.symbol.isSign = false) :
    Reads (unary scope finish ts) e rest ↔ Reads (power scope finish ts) e rest := by
  cases ts with
  | nil => rw [unary]
  | cons t ts =>
    have ht := h t rfl
    rw [unary]
    split
    · next hs => rw [hs] at ht; cases ht
    · next hs => rw [hs] at ht; cases ht
    · next hs => rw [hs] at ht; cases ht
    · rfl

theorem power_reads_iff {ts rest : List Token} {e : Expr} :
    Reads (power scope finish ts) e rest ↔
      ∃ base mid, Reads (primary scope finish ts) base mid ∧
        ((∀ t ∈ mid.head?, t.symbol ≠ .power) ∧ e = base ∧ rest = mid ∨
          ∃ t more exponent, mid = t :: more ∧ t.symbol = .power ∧
            Reads (unary scope finish more) exponent rest ∧ e = .binary .pow base exponent) := by
  rw [power]
  cases hp : primary scope finish ts with
  | error err => simp [not_reads_error]
  | ok first =>
    obtain ⟨base, mid, hmid⟩ := first
    simp only [reads_ok_iff, exists_eq_pair]
    cases mid with
    | nil => simp [reads_ok_iff]
    | cons t more =>
      dsimp only
      split
      · next ht =>
        cases hu : unary scope finish more with
        | error err =>
          refine ⟨fun h => absurd h not_reads_error, ?_⟩
          rintro (⟨hno, -, -⟩ | ⟨t', more', a, heq, -, ha, -⟩)
          · exact absurd ht (hno t rfl)
          · cases heq; rw [hu] at ha; exact absurd ha not_reads_error
        | ok next =>
          rw [reads_ok_iff]
          constructor
          · rintro ⟨rfl, rfl⟩
            exact Or.inr ⟨t, more, _, rfl, ht, hu ▸ reads_ok_iff.2 ⟨rfl, rfl⟩, rfl⟩
          · rintro (⟨hno, -, -⟩ | ⟨t', more', a, heq, -, ha, rfl⟩)
            · exact absurd ht (hno t rfl)
            · cases heq; rw [hu, reads_ok_iff] at ha; exact ⟨by rw [ha.1], ha.2⟩
      · next ht =>
        rw [reads_ok_iff]
        constructor
        · rintro ⟨rfl, rfl⟩
          exact Or.inl ⟨fun t' h => by cases h; exact ht, rfl, rfl⟩
        · rintro (⟨-, rfl, rfl⟩ | ⟨t', more', a, heq, ht', -, -⟩)
          · exact ⟨rfl, rfl⟩
          · cases heq; exact absurd ht' ht

theorem not_primary_reads_nil {rest : List Token} {e : Expr} :
    ¬ Reads (primary scope finish []) e rest := by
  rw [primary]; exact not_reads_error

/-- What `primary` reads after its first symbol. -/
def PrimaryReads (scope : Scope) (finish : Nat) (ts : List Token) (e : Expr) (rest : List Token) :
    Symbol → Prop
  | .number v => e = .number v ∧ rest = ts
  | .parameter i => e = .param i ∧ rest = ts
  | .openParen => ∃ u, u.symbol = .closeParen ∧ Reads (layer scope finish 0 ts) e (u :: rest)
  | .name name =>
    ((∀ u ∈ ts.head?, u.symbol ≠ .openParen) ∧ scope.resolve name = .ok e ∧ rest = ts) ∨
    ∃ u more args, ts = u :: more ∧ u.symbol = .openParen ∧
      Reads (arguments scope finish u.offset more) args rest ∧ callNamed name args = .ok e
  | _ => False

theorem primary_reads_iff {t : Token} {ts rest : List Token} {e : Expr} :
    Reads (primary scope finish (t :: ts)) e rest ↔
      PrimaryReads scope finish ts e rest t.symbol := by
  have hlocate : ∀ {r : Except Cause Expr}, (∃ b, r = .ok b ∧ e = b ∧ rest = ts) ↔
      r = .ok e ∧ rest = ts := by
    intro r
    constructor
    · rintro ⟨_, h, rfl, rfl⟩; exact ⟨h, rfl⟩
    · rintro ⟨h, rfl⟩; exact ⟨e, h, rfl, rfl⟩
  obtain ⟨symbol, offset⟩ := t
  rw [primary]
  cases symbol with
  | number v => exact reads_ok_iff
  | parameter i => exact reads_ok_iff
  | openParen =>
    simp only [PrimaryReads]
    cases hl : layer scope finish 0 ts with
    | error err => simp [not_reads_error]
    | ok first =>
      obtain ⟨inner, mid, hmid⟩ := first
      simp only [reads_ok_iff]
      cases mid with
      | nil => simp [not_reads_error]
      | cons u more =>
        dsimp only
        split
        · next hu =>
          rw [reads_ok_iff]
          constructor
          · rintro ⟨rfl, rfl⟩; exact ⟨u, hu, rfl, rfl⟩
          · rintro ⟨u', -, rfl, heq⟩; cases heq; exact ⟨rfl, rfl⟩
        · next hu =>
          refine ⟨fun h => absurd h not_reads_error, ?_⟩
          rintro ⟨u', hu', -, heq⟩; cases heq; exact absurd hu' hu
  | name name =>
    simp only [PrimaryReads]
    cases ts with
    | nil => rw [reads_locate_iff, hlocate]; simp
    | cons u more =>
      dsimp only
      split
      · next hu =>
        have hno : ¬ ∀ v ∈ (u :: more).head?, v.symbol ≠ .openParen := fun h => h u rfl hu
        simp only [hno, false_and, false_or]
        cases ha : arguments scope finish u.offset more with
        | error err =>
          refine ⟨fun h => absurd h not_reads_error, ?_⟩
          rintro ⟨u', more', args, heq, -, hread, -⟩
          cases heq; rw [ha] at hread; exact absurd hread not_reads_error
        | ok next =>
          rw [reads_locate_iff]
          constructor
          · rintro ⟨_, hcall, rfl, rfl⟩
            exact ⟨u, more, _, rfl, hu, ha ▸ reads_ok_iff.2 ⟨rfl, rfl⟩, hcall⟩
          · rintro ⟨u', more', args, heq, -, hread, hcall⟩
            cases heq; rw [ha, reads_ok_iff] at hread
            exact ⟨e, hread.1 ▸ hcall, rfl, hread.2⟩
      · next hu =>
        rw [reads_locate_iff, hlocate]
        constructor
        · intro h; exact Or.inl ⟨fun v hv => by cases hv; exact hu, h⟩
        · rintro (⟨-, h⟩ | ⟨u', more', args, heq, hu', -⟩)
          · exact h
          · cases heq; exact absurd hu' hu
  | _ => simp [PrimaryReads, not_reads_error]

theorem arguments_reads_iff_of_close {opened : Nat} {t : Token} (ht : t.symbol = .closeParen)
    {ts rest : List Token} {args : List Expr} :
    Reads (arguments scope finish opened (t :: ts)) args rest ↔ args = [] ∧ rest = ts := by
  rw [arguments]
  simp only [ht, reads_ok_iff]

theorem arguments_reads_iff_of_no_close {opened : Nat} {ts rest : List Token}
    (h : ∀ t ∈ ts.head?, t.symbol ≠ .closeParen) {args : List Expr} :
    Reads (arguments scope finish opened ts) args rest ↔
      Reads (someArguments scope finish opened ts) args rest := by
  cases ts with
  | nil => rw [arguments]
  | cons t ts =>
    rw [arguments]
    split
    · next ht => exact absurd ht (h t rfl)
    · rfl

theorem someArguments_reads_iff {opened : Nat} {ts rest : List Token} {args : List Expr} :
    Reads (someArguments scope finish opened ts) args rest ↔
      ∃ arg t mid, Reads (layer scope finish 0 ts) arg (t :: mid) ∧
        (t.symbol = .closeParen ∧ args = [arg] ∧ rest = mid ∨
          t.symbol = .comma ∧ ∃ more, Reads (someArguments scope finish opened mid) more rest ∧
            args = arg :: more) := by
  rw [someArguments]
  cases hl : layer scope finish 0 ts with
  | error err => simp [not_reads_error]
  | ok first =>
    obtain ⟨arg, mid, hmid⟩ := first
    simp only [reads_ok_iff]
    cases mid with
    | nil => simp [not_reads_error]
    | cons t mid =>
      dsimp only
      split
      · next ht =>
        cases hm : someArguments scope finish opened mid with
        | error err =>
          refine ⟨fun h => absurd h not_reads_error, ?_⟩
          rintro ⟨arg', t', mid', ⟨-, heq⟩, ⟨hc, -⟩ | ⟨-, more, hmore, -⟩⟩
          · cases heq; rw [ht] at hc; cases hc
          · cases heq; rw [hm] at hmore; exact absurd hmore not_reads_error
        | ok next =>
          rw [reads_ok_iff]
          constructor
          · rintro ⟨rfl, rfl⟩
            exact ⟨arg, t, mid, ⟨rfl, rfl⟩, Or.inr ⟨ht, _, hm ▸ reads_ok_iff.2 ⟨rfl, rfl⟩, rfl⟩⟩
          · rintro ⟨arg', t', mid', ⟨rfl, heq⟩, ⟨hc, -⟩ | ⟨-, more, hmore, rfl⟩⟩
            · cases heq; rw [ht] at hc; cases hc
            · cases heq; rw [hm, reads_ok_iff] at hmore; exact ⟨by rw [hmore.1], hmore.2⟩
      · next ht =>
        rw [reads_ok_iff]
        constructor
        · rintro ⟨rfl, rfl⟩
          exact ⟨arg, t, rest, ⟨rfl, rfl⟩, Or.inl ⟨ht, rfl, rfl⟩⟩
        · rintro ⟨arg', t', mid', ⟨rfl, heq⟩, ⟨-, rfl, rfl⟩ | ⟨hc, -⟩⟩
          · cases heq; exact ⟨rfl, rfl⟩
          · cases heq; rw [ht] at hc; cases hc
      · next hcomma hclose =>
        refine ⟨fun h => absurd h not_reads_error, ?_⟩
        rintro ⟨arg', t', mid', ⟨-, heq⟩, ⟨hc, -⟩ | ⟨hc, -⟩⟩
        · cases heq; exact absurd hc hclose
        · cases heq; exact absurd hc hcomma

end

/-! ## Layers and constructs -/

/-- The construct of a layer; from layer 5 on these are the signed ones. -/
def Construct.ofLayer : Nat → Construct
  | 0 => disjunction
  | 1 => conjunction
  | 2 => comparison
  | 3 => sum
  | 4 => product
  | _ => signed

theorem ofLayer_of_le {k : Nat} (h : layers ≤ k) : Construct.ofLayer k = .signed := by
  match k with
  | k + 5 => rfl
  | 0 | 1 | 2 | 3 | 4 => simp [layers] at h

theorem includes_ofLayer {k : Nat} (h : k < layers) :
    Includes (.ofLayer k) (.ofLayer (k + 1)) := by
  match k with
  | 0 => exact .conjunction
  | 1 => exact .comparison
  | 2 => exact .sum
  | 3 => exact .product
  | 4 => exact .signed
  | k + 5 => exact absurd h (by simp [layers])

theorem joins_of_operator {k : Nat} {s : Symbol} {op : BinaryOp} (h : operator? k s = some op) :
    Joins (.ofLayer k) s op (.ofLayer (k + 1)) := by
  unfold operator? at h
  split at h <;> first
    | cases h; constructor
    | cases h

theorem ofLayer_inj {k k' : Nat} (h : k ≤ layers) (h' : k' ≤ layers)
    (heq : Construct.ofLayer k = .ofLayer k') : k = k' := by
  match k, k' with
  | 0, 0 | 1, 1 | 2, 2 | 3, 3 | 4, 4 | 5, 5 => rfl
  | k + 6, _ => exact absurd h (by simp [layers])
  | _, k' + 6 => exact absurd h' (by simp [layers])
  | 0, 1 | 0, 2 | 0, 3 | 0, 4 | 0, 5 | 1, 0 | 1, 2 | 1, 3 | 1, 4 | 1, 5 | 2, 0 | 2, 1 | 2, 3
  | 2, 4 | 2, 5 | 3, 0 | 3, 1 | 3, 2 | 3, 4 | 3, 5 | 4, 0 | 4, 1 | 4, 2 | 4, 3 | 4, 5 | 5, 0
  | 5, 1 | 5, 2 | 5, 3 | 5, 4 => cases heq

theorem ofLayer_ne (k : Nat) :
    Construct.ofLayer k ≠ .primary ∧ Construct.ofLayer k ≠ .power := by
  match k with
  | 0 | 1 | 2 | 3 | 4 | k + 5 => exact ⟨nofun, nofun⟩

theorem Joins.layer {c d : Construct} {s : Symbol} {op : BinaryOp} (h : Joins c s op d) :
    ∃ k < layers, c = .ofLayer k ∧ d = .ofLayer (k + 1) ∧ operator? k s = some op := by
  cases h with
  | or => exact ⟨0, by decide, rfl, rfl, rfl⟩
  | and => exact ⟨1, by decide, rfl, rfl, rfl⟩
  | lt | gt | le | ge | eq | ne => exact ⟨2, by decide, rfl, rfl, rfl⟩
  | add | sub => exact ⟨3, by decide, rfl, rfl, rfl⟩
  | mul | div => exact ⟨4, by decide, rfl, rfl, rfl⟩

theorem Joins.unique {c d c' d' : Construct} {s : Symbol} {op op' : BinaryOp}
    (h : Joins c s op d) (h' : Joins c' s op' d') : c = c' := by
  cases h <;> cases h' <;> rfl

theorem Joins.not_mark {c d : Construct} {s : Symbol} {op : BinaryOp} (h : Joins c s op d) :
    (s ≠ .openParen ∧ s ≠ .power) ∧ s ≠ .closeParen ∧ s ≠ .comma := by
  cases h <;> simp

theorem lt_layers_of_operator {k : Nat} {s : Symbol} {op : BinaryOp}
    (h : operator? k s = some op) : k < layers := by
  unfold operator? at h
  split at h <;> first
    | decide
    | cases h

theorem Includes.layer {c d : Construct} (h : Includes c d) :
    (∃ k < layers, c = .ofLayer k ∧ d = .ofLayer (k + 1)) ∨ c = .signed ∧ d = .power ∨
      c = .power ∧ d = .primary := by
  cases h with
  | conjunction => exact Or.inl ⟨0, by decide, rfl, rfl⟩
  | comparison => exact Or.inl ⟨1, by decide, rfl, rfl⟩
  | sum => exact Or.inl ⟨2, by decide, rfl, rfl⟩
  | product => exact Or.inl ⟨3, by decide, rfl, rfl⟩
  | signed => exact Or.inl ⟨4, by decide, rfl, rfl⟩
  | power => exact Or.inr (Or.inl ⟨rfl, rfl⟩)
  | primary => exact Or.inr (Or.inr ⟨rfl, rfl⟩)

/-! ## Soundness -/

section
variable {scope : Scope} {finish : Nat}

/-- `ss` are the arguments of a call up to its closing parenthesis: constructs
    with the trees `args` and commas between them. -/
def DerivesArguments (scope : Scope) (ss : List Symbol) (args : List Expr) : Prop :=
  ∃ parts : List (List Symbol × Expr), parts ≠ [] ∧
    (∀ part ∈ parts, Derives scope .disjunction part.1 part.2) ∧
    args = parts.map Prod.snd ∧ ss = [.comma].intercalate (parts.map Prod.fst) ++ [.closeParen]

theorem callNamed_nil (name : String) (e : Expr) : callNamed name [] ≠ .ok e := by
  unfold callNamed
  cases hf : Function.ofName? name with
  | none => simp
  | some f => cases f <;> simp [Function.call]

-- the proofs recur as the readers do, on the same measures
mutual

theorem layer_sound (hs : scope.Proper) {k : Nat} {ts rest : List Token} {e : Expr}
    (h : Reads (layer scope finish k ts) e rest) :
    ∃ taken, ts = taken ++ rest ∧ Derives scope (.ofLayer k) (symbols taken) e := by
  rcases Nat.lt_or_ge k layers with hk | hk
  · obtain ⟨left, mid, hleft, hops⟩ := (layer_reads_iff hk).1 h
    have hlt := hleft.property
    obtain ⟨t₁, hts, hd⟩ := layer_sound hs hleft
    obtain ⟨t₂, hmid, hcont⟩ := operands_sound hs hops
    refine ⟨t₁ ++ t₂, by rw [hts, hmid, List.append_assoc], ?_⟩
    rw [symbols, List.map_append]
    exact hcont _ (.include (includes_ofLayer hk) hd)
  · rw [ofLayer_of_le hk]
    exact unary_sound hs ((layer_reads_signed_iff hk).1 h)
termination_by (ts.length, layers + 3 - min k layers)

theorem operands_sound (hs : scope.Proper) {k : Nat} {left : Expr} {ts rest : List Token} {e : Expr}
    (h : Reads (operands scope finish k left ts) e rest) :
    ∃ taken, ts = taken ++ rest ∧ ∀ ss, Derives scope (.ofLayer k) ss left →
      Derives scope (.ofLayer k) (ss ++ symbols taken) e := by
  have hstop : e = left ∧ rest = ts → ∃ taken, ts = taken ++ rest ∧
      ∀ ss, Derives scope (.ofLayer k) ss left →
        Derives scope (.ofLayer k) (ss ++ symbols taken) e := by
    rintro ⟨rfl, rfl⟩
    exact ⟨[], rfl, fun ss hd => by simpa using hd⟩
  match ts with
  | [] => exact hstop ((operands_reads_iff_of_stop (by simp)).1 h)
  | t :: ts =>
    cases hop : operator? k t.symbol with
    | none => exact hstop ((operands_reads_iff_of_stop (by simpa using hop)).1 h)
    | some op =>
      obtain ⟨right, mid, hright, hops⟩ := (operands_reads_iff_of_operator hop).1 h
      have hlt := hright.property
      obtain ⟨t₁, hts, hd⟩ := layer_sound hs hright
      obtain ⟨t₂, hmid, hcont⟩ := operands_sound hs hops
      refine ⟨t :: t₁ ++ t₂, by rw [hts, hmid]; simp, fun ss hleft => ?_⟩
      have hjoin := hcont _ (.join (joins_of_operator hop) hleft hd)
      simpa using hjoin
termination_by (ts.length, layers + 4)

theorem unary_sound (hs : scope.Proper) {ts rest : List Token} {e : Expr}
    (h : Reads (unary scope finish ts) e rest) :
    ∃ taken, ts = taken ++ rest ∧ Derives scope .signed (symbols taken) e := by
  by_cases hno : ∀ t ∈ ts.head?, t.symbol.isSign = false
  · obtain ⟨taken, hts, hd⟩ := power_sound hs ((unary_reads_iff_of_no_sign hno).1 h)
    exact ⟨taken, hts, .include .power hd⟩
  · match ts with
    | [] => simp at hno
    | t :: ts =>
      obtain ⟨f, hf⟩ := exists_signs_of_isSign (s := t.symbol) (by simpa using hno)
      obtain ⟨a, ha, rfl⟩ := (unary_reads_iff_of_sign hf).1 h
      obtain ⟨taken, hts, hd⟩ := unary_sound hs ha
      exact ⟨t :: taken, by rw [hts]; rfl, .sign hf hd⟩
termination_by (ts.length, 2)

theorem power_sound (hs : scope.Proper) {ts rest : List Token} {e : Expr}
    (h : Reads (power scope finish ts) e rest) :
    ∃ taken, ts = taken ++ rest ∧ Derives scope .power (symbols taken) e := by
  obtain ⟨base, mid, hbase, hnext⟩ := power_reads_iff.1 h
  have hlt := hbase.property
  obtain ⟨t₁, hts, hd₁⟩ := primary_sound hs hbase
  rcases hnext with ⟨-, rfl, rfl⟩ | ⟨t, more, exponent, rfl, ht, hexp, rfl⟩
  · exact ⟨t₁, hts, .include .primary hd₁⟩
  · have hlt' : more.length < ts.length := Nat.lt_of_succ_lt hlt
    obtain ⟨t₂, hmore, hd₂⟩ := unary_sound hs hexp
    refine ⟨t₁ ++ t :: t₂, by rw [hts, hmore]; simp, ?_⟩
    rw [symbols, List.map_append, List.map_cons, ht]
    exact .raise hd₁ hd₂
termination_by (ts.length, 1)

theorem primary_sound (hs : scope.Proper) {ts rest : List Token} {e : Expr}
    (h : Reads (primary scope finish ts) e rest) :
    ∃ taken, ts = taken ++ rest ∧ Derives scope .primary (symbols taken) e := by
  match ts with
  | [] => exact absurd h not_primary_reads_nil
  | t :: ts =>
    have hread := primary_reads_iff.1 h
    have hone : ∀ {s : Symbol}, t.symbol = s → Derives scope .primary [s] e → rest = ts →
        ∃ taken, t :: ts = taken ++ rest ∧ Derives scope .primary (symbols taken) e := by
      rintro s rfl hd rfl; exact ⟨[t], rfl, hd⟩
    cases ht : t.symbol with
    | number v =>
      rw [ht] at hread
      obtain ⟨rfl, hrest⟩ := hread
      exact hone ht (.number v) hrest
    | parameter i =>
      rw [ht] at hread
      obtain ⟨rfl, hrest⟩ := hread
      exact hone ht (.parameter i) hrest
    | openParen =>
      rw [ht] at hread
      obtain ⟨u, hu, hinner⟩ := hread
      obtain ⟨taken, hts, hd⟩ := layer_sound hs hinner
      refine ⟨t :: taken ++ [u], by rw [hts]; simp, ?_⟩
      rw [symbols, List.map_append, List.map_cons, List.map_singleton, ht, hu]
      exact .parens hd
    | name name =>
      rw [ht] at hread
      rcases hread with ⟨-, he, hrest⟩ | ⟨u, more, args, hts, hu, hargs, he⟩
      · exact hone ht (.name ((resolve_ok_iff hs).1 he)) hrest
      · have hlt : more.length < ts.length := by rw [hts]; exact Nat.lt_succ_self _
        obtain ⟨taken, hmore, hread⟩ := arguments_sound hs hargs
        refine ⟨t :: u :: taken, by rw [hts, hmore]; rfl, ?_⟩
        rcases hread with ⟨rfl, -⟩ | ⟨parts, hne, hparts, rfl, htaken⟩
        · exact absurd he (callNamed_nil name e)
        · show Derives scope .primary (t.symbol :: u.symbol :: symbols taken) e
          rw [ht, hu, htaken]
          exact .call parts hne hparts he
    | _ => rw [ht] at hread; exact hread.elim
termination_by (ts.length, 0)

theorem arguments_sound (hs : scope.Proper) {opened : Nat} {ts rest : List Token} {args : List Expr}
    (h : Reads (arguments scope finish opened ts) args rest) :
    ∃ taken, ts = taken ++ rest ∧
      (args = [] ∧ symbols taken = [.closeParen] ∨
        DerivesArguments scope (symbols taken) args) := by
  by_cases hclose : ∀ t ∈ ts.head?, t.symbol ≠ .closeParen
  · obtain ⟨taken, hts, hread⟩ :=
      someArguments_sound hs ((arguments_reads_iff_of_no_close hclose).1 h)
    exact ⟨taken, hts, Or.inr hread⟩
  · match ts with
    | [] => simp at hclose
    | t :: ts =>
      have ht : t.symbol = .closeParen := by simpa using hclose
      obtain ⟨rfl, rfl⟩ := (arguments_reads_iff_of_close ht).1 h
      exact ⟨[t], rfl, Or.inl ⟨rfl, by rw [symbols, List.map_singleton, ht]⟩⟩
termination_by (ts.length, layers + 5)

theorem someArguments_sound (hs : scope.Proper) {opened : Nat} {ts rest : List Token}
    {args : List Expr}
    (h : Reads (someArguments scope finish opened ts) args rest) :
    ∃ taken, ts = taken ++ rest ∧ DerivesArguments scope (symbols taken) args := by
  obtain ⟨arg, t, mid, harg, hnext⟩ := someArguments_reads_iff.1 h
  have hlt : mid.length < ts.length := Nat.lt_of_succ_lt harg.property
  obtain ⟨t₁, hts, hd⟩ := layer_sound hs harg
  rcases hnext with ⟨ht, rfl, rfl⟩ | ⟨ht, more, hmore, rfl⟩
  · refine ⟨t₁ ++ [t], by rw [hts]; simp, [(symbols t₁, arg)], by simp, ?_, rfl, ?_⟩
    · intro part hpart
      rw [List.mem_singleton.1 hpart]; exact hd
    · simp [ht]
  · obtain ⟨t₂, hmid, parts, hne, hparts, hargs, hjoined⟩ := someArguments_sound hs hmore
    refine ⟨t₁ ++ t :: t₂, by rw [hts, hmid]; simp, (symbols t₁, arg) :: parts, by simp,
      ?_, by simp [hargs], ?_⟩
    · intro part hpart
      rcases List.mem_cons.1 hpart with rfl | hpart
      · exact hd
      · exact hparts _ hpart
    · rw [List.map_cons, List.intercalate_cons_of_ne_nil (by simpa using hne)]
      simp [ht, hjoined]
termination_by (ts.length, layers + 4)

end

end

/-! ## Completeness -/

/-- The next token is no opening parenthesis, so a name before it is no call. -/
def NoCall (rest : List Token) : Prop :=
  ∀ t ∈ rest.head?, t.symbol ≠ .openParen

/-- The next token does not continue a construct of layer `k`: it opens no
    call, raises to no power and is no operator from this layer on. -/
def Stops (k : Nat) (rest : List Token) : Prop :=
  NoCall rest ∧ (∀ t ∈ rest.head?, t.symbol ≠ .power) ∧
    ∀ t ∈ rest.head?, ∀ j, k ≤ j → operator? j t.symbol = none

theorem Stops.mono {k k' : Nat} {rest : List Token} (h : Stops k rest) (hk : k ≤ k') :
    Stops k' rest :=
  ⟨h.1, h.2.1, fun t ht j hj => h.2.2 t ht j (Nat.le_trans hk hj)⟩

theorem stops_nil (k : Nat) : Stops k [] :=
  ⟨by simp [NoCall], by simp, by simp⟩

theorem stops_of_operator {k : Nat} {t : Token} {op : BinaryOp} (h : operator? k t.symbol = some op)
    (rest : List Token) : Stops (k + 1) (t :: rest) := by
  have hjoins := joins_of_operator h
  refine ⟨?_, ?_, ?_⟩
  · intro u hu; cases hu; exact hjoins.not_mark.1.1
  · intro u hu; cases hu; exact hjoins.not_mark.1.2
  · intro u hu j hj
    cases hu
    rw [Option.eq_none_iff_forall_ne_some]
    intro op' h'
    have hk := lt_layers_of_operator h
    have hj' := lt_layers_of_operator h'
    have heq := ofLayer_inj (Nat.le_of_lt hk) (Nat.le_of_lt hj')
      (hjoins.unique (joins_of_operator h'))
    omega

theorem stops_of_mark {t : Token} (h : t.symbol = .closeParen ∨ t.symbol = .comma) (k : Nat)
    (rest : List Token) : Stops k (t :: rest) := by
  refine ⟨?_, ?_, ?_⟩
  · intro u hu; cases hu; rcases h with h | h <;> simp [h]
  · intro u hu; cases hu; rcases h with h | h <;> simp [h]
  · intro u hu j _
    cases hu
    rw [Option.eq_none_iff_forall_ne_some]
    intro op hop
    have hjoins := joins_of_operator hop
    rcases h with h | h
    · exact hjoins.not_mark.2.1 h
    · exact hjoins.not_mark.2.2 h

section
variable {scope : Scope} {finish : Nat}

theorem operands_reads_of_stops {k : Nat} {rest : List Token} (h : Stops k rest) (e : Expr) :
    Reads (operands scope finish k e rest) e rest :=
  (operands_reads_iff_of_stop fun t ht => h.2.2 t ht k (Nat.le_refl k)).2 ⟨rfl, rfl⟩

/-- The readers take the symbols `ss` as a construct of kind `c` with the tree
    `e`, wherever they stand.  Where more operators of the same layer may
    follow, what is read is up to `operands`, from the tree `e` on. -/
structure ReadsWhole (scope : Scope) (finish : Nat) (c : Construct) (ss : List Symbol) (e : Expr) :
    Prop where
  primary : c = .primary → ∀ ts rest, symbols ts = ss → NoCall rest →
    Reads (primary scope finish (ts ++ rest)) e rest
  power : c = .power → ∀ ts rest, symbols ts = ss → Stops layers rest →
    Reads (power scope finish (ts ++ rest)) e rest
  layer : ∀ k ≤ layers, c = .ofLayer k → ∀ ts rest, symbols ts = ss → Stops (k + 1) rest →
    ∀ e' rest', Reads (operands scope finish k e rest) e' rest' →
      Reads (layer scope finish k (ts ++ rest)) e' rest'

namespace ReadsWhole

variable {ss : List Symbol} {e : Expr} {ts rest : List Token}

/-- A construct of layer `k` is read as a whole before a token that stops it. -/
theorem whole {k : Nat} (h : ReadsWhole scope finish (.ofLayer k) ss e) (hk : k ≤ layers)
    (hts : symbols ts = ss) (hstop : Stops k rest) :
    Reads (Formula.layer scope finish k (ts ++ rest)) e rest :=
  h.layer k hk rfl ts rest hts (hstop.mono (Nat.le_succ k)) e rest
    (operands_reads_of_stops hstop e)

theorem signed (h : ReadsWhole scope finish .signed ss e) (hts : symbols ts = ss)
    (hstop : Stops layers rest) : Reads (unary scope finish (ts ++ rest)) e rest :=
  (layer_reads_signed_iff (Nat.le_refl _)).1 (whole (k := layers) h (Nat.le_refl _) hts hstop)

theorem of_layer {c : Construct} {k : Nat} (hk : k ≤ layers) (hc : c = .ofLayer k)
    (h : ∀ ts rest, symbols ts = ss → Stops (k + 1) rest →
      ∀ e' rest', Reads (operands scope finish k e rest) e' rest' →
        Reads (Formula.layer scope finish k (ts ++ rest)) e' rest') :
    ReadsWhole scope finish c ss e where
  primary hp := absurd (hc.symm.trans hp) (ofLayer_ne k).1
  power hp := absurd (hc.symm.trans hp) (ofLayer_ne k).2
  layer k' hk' hc' := by
    have heq := ofLayer_inj hk hk' (hc.symm.trans hc')
    subst heq
    exact h

theorem of_signed (h : ∀ ts rest, symbols ts = ss → Stops layers rest →
      Reads (unary scope finish (ts ++ rest)) e rest) :
    ReadsWhole scope finish .signed ss e := by
  refine of_layer (k := layers) (Nat.le_refl _) rfl fun ts rest hts hstop e' rest' hops => ?_
  have hstop' : Stops layers rest := ⟨hstop.1, hstop.2.1, fun t ht j hj => by
    rw [Option.eq_none_iff_forall_ne_some]
    intro op hop
    exact absurd (lt_layers_of_operator hop) (Nat.not_lt.2 hj)⟩
  obtain ⟨rfl, rfl⟩ := (operands_reads_iff_of_stop fun t ht =>
    hstop'.2.2 t ht layers (Nat.le_refl _)).1 hops
  exact (layer_reads_signed_iff (Nat.le_refl _)).2 (h ts _ hts hstop')

theorem of_power (h : ∀ ts rest, symbols ts = ss → Stops layers rest →
      Reads (Formula.power scope finish (ts ++ rest)) e rest) :
    ReadsWhole scope finish .power ss e where
  primary hp := by cases hp
  power _ := h
  layer k _ hc := absurd hc.symm (ofLayer_ne k).2

theorem of_primary (h : ∀ ts rest, symbols ts = ss → NoCall rest →
      Reads (Formula.primary scope finish (ts ++ rest)) e rest) :
    ReadsWhole scope finish .primary ss e where
  primary _ := h
  power hp := by cases hp
  layer k _ hc := absurd hc.symm (ofLayer_ne k).1

end ReadsWhole

theorem symbols_eq_append_cons {ts : List Token} {l r : List Symbol} {s : Symbol}
    (h : symbols ts = l ++ s :: r) :
    ∃ tl t tr, ts = tl ++ t :: tr ∧ symbols tl = l ∧ t.symbol = s ∧ symbols tr = r := by
  obtain ⟨tl, tail, rfl, hl, htail⟩ := List.map_eq_append_iff.1 h
  obtain ⟨t, tr, rfl, ht, hr⟩ := List.map_eq_cons_iff.1 htail
  exact ⟨tl, t, tr, rfl, hl, ht, hr⟩

/-- Arguments are read up to their closing parenthesis. -/
theorem someArguments_reads {opened : Nat} {parts : List (List Symbol × Expr)} (hne : parts ≠ [])
    (hparts : ∀ part ∈ parts, ReadsWhole scope finish .disjunction part.1 part.2)
    {ts : List Token} (rest : List Token)
    (hts : symbols ts = [.comma].intercalate (parts.map Prod.fst) ++ [.closeParen]) :
    Reads (someArguments scope finish opened (ts ++ rest)) (parts.map Prod.snd) rest := by
  induction parts generalizing ts with
  | nil => exact absurd rfl hne
  | cons part parts ih =>
    have hpart := hparts part (List.mem_cons_self ..)
    rw [someArguments_reads_iff]
    rcases List.eq_nil_or_concat parts with rfl | hsome
    · obtain ⟨tl, t, tr, rfl, hl, ht, hr⟩ := symbols_eq_append_cons (l := part.1) (s := .closeParen)
        (r := []) (by simpa using hts)
      obtain rfl : tr = [] := List.map_eq_nil_iff.1 hr
      refine ⟨part.2, t, rest, ?_, Or.inl ⟨ht, rfl, rfl⟩⟩
      have hread : Reads (layer scope finish 0 (tl ++ t :: rest)) part.2 (t :: rest) :=
        hpart.whole (Nat.zero_le _) hl (stops_of_mark (Or.inl ht) 0 rest)
      rwa [List.append_assoc]
    · have hparts' : parts ≠ [] := by
        obtain ⟨more, last, rfl⟩ := hsome
        simp
      obtain ⟨tl, t, tr, rfl, hl, ht, hr⟩ := symbols_eq_append_cons (l := part.1) (s := .comma)
        (r := [.comma].intercalate (parts.map Prod.fst) ++ [.closeParen]) (by
          rw [hts, List.map_cons, List.intercalate_cons_of_ne_nil (by simpa using hparts')]
          simp)
      refine ⟨part.2, t, tr ++ rest, ?_, Or.inr ⟨ht, parts.map Prod.snd, ?_, rfl⟩⟩
      · have hread : Reads (layer scope finish 0 (tl ++ t :: (tr ++ rest))) part.2
            (t :: (tr ++ rest)) :=
          hpart.whole (Nat.zero_le _) hl (stops_of_mark (Or.inr ht) 0 _)
        rwa [List.append_assoc]
      · exact ih hparts' (fun p hp => hparts p (List.mem_cons_of_mem _ hp)) hr

/-- **Completeness.**  Whatever the grammar derives is read as a whole. -/
theorem Derives.reads (hs : scope.Proper) {c : Construct} {ss : List Symbol} {e : Expr}
    (h : Derives scope c ss e) : ReadsWhole scope finish c ss e := by
  induction h with
  | @«include» c d ss e hc hd ih =>
    rcases hc.layer with ⟨k, hk, rfl, rfl⟩ | ⟨rfl, rfl⟩ | ⟨rfl, rfl⟩
    · refine .of_layer (Nat.le_of_lt hk) rfl fun ts rest hts hstop e' rest' hops => ?_
      rw [layer_reads_iff hk]
      exact ⟨e, rest, ih.whole hk hts hstop, hops⟩
    · refine .of_signed fun ts rest hts hstop => ?_
      rw [unary_reads_iff_of_no_sign]
      · exact ih.power rfl ts rest hts hstop
      · obtain ⟨s, tail, rfl, hbegins⟩ := hd.begins
        obtain ⟨t, tr, rfl, ht, -⟩ := List.map_eq_cons_iff.1 hts
        intro u hu
        cases hu
        rw [ht]
        rcases hbegins with hbegins | ⟨-, hne, -⟩
        · cases s <;> first | rfl | cases hbegins
        · exact absurd rfl hne
    · refine .of_power fun ts rest hts hstop => ?_
      rw [power_reads_iff]
      exact ⟨e, rest, ih.primary rfl ts rest hts hstop.1, Or.inl ⟨hstop.2.1, rfl, rfl⟩⟩
  | @join c d s op l r left right hj _ _ ihl ihr =>
    obtain ⟨k, hk, rfl, rfl, hop⟩ := hj.layer
    refine .of_layer (Nat.le_of_lt hk) rfl fun ts rest hts hstop e' rest' hops => ?_
    -- the left operand stands before an operator of its own layer, where it
    -- leaves the rest to `operands`
    obtain ⟨tl, t, tr, rfl, hl, ht, hr⟩ := symbols_eq_append_cons hts
    rw [← ht] at hop
    rw [List.append_assoc, List.cons_append]
    refine ihl.layer k (Nat.le_of_lt hk) rfl tl _ hl (stops_of_operator hop _) e' rest' ?_
    rw [operands_reads_iff_of_operator hop]
    exact ⟨right, rest, ihr.whole hk hr hstop, hops⟩
  | @sign s f ss e hf _ ih =>
    refine .of_signed fun ts rest hts hstop => ?_
    obtain ⟨t, tr, rfl, ht, hr⟩ := List.map_eq_cons_iff.1 hts
    rw [List.cons_append, unary_reads_iff_of_sign (ht ▸ hf)]
    exact ⟨e, ih.signed hr hstop, rfl⟩
  | @raise b x base exponent _ _ ihb ihx =>
    refine .of_power fun ts rest hts hstop => ?_
    obtain ⟨tb, t, tx, rfl, hb, ht, hx⟩ := symbols_eq_append_cons hts
    rw [List.append_assoc, List.cons_append, power_reads_iff]
    refine ⟨base, t :: (tx ++ rest), ihb.primary rfl tb _ hb ?_, Or.inr
      ⟨t, tx ++ rest, exponent, rfl, ht, ihx.signed hx hstop, rfl⟩⟩
    intro u hu
    cases hu
    rw [ht]; simp
  | number v =>
    refine .of_primary fun ts rest hts _ => ?_
    obtain ⟨t, rfl, ht⟩ := List.map_eq_singleton_iff.1 hts
    rw [List.singleton_append, primary_reads_iff, ht]
    exact ⟨rfl, rfl⟩
  | parameter i =>
    refine .of_primary fun ts rest hts _ => ?_
    obtain ⟨t, rfl, ht⟩ := List.map_eq_singleton_iff.1 hts
    rw [List.singleton_append, primary_reads_iff, ht]
    exact ⟨rfl, rfl⟩
  | @parens ss e _ ih =>
    refine .of_primary fun ts rest hts _ => ?_
    obtain ⟨t, tr, rfl, ht, htr⟩ := List.map_eq_cons_iff.1 hts
    obtain ⟨tm, u, tend, rfl, hm, hu, hend⟩ := symbols_eq_append_cons htr
    obtain rfl : tend = [] := List.map_eq_nil_iff.1 hend
    rw [List.cons_append, primary_reads_iff, ht]
    refine ⟨u, hu, ?_⟩
    rw [List.append_assoc]
    exact ih.whole (k := 0) (Nat.zero_le _) hm (stops_of_mark (Or.inl hu) 0 rest)
  | @name name e hn =>
    refine .of_primary fun ts rest hts hcall => ?_
    obtain ⟨t, rfl, ht⟩ := List.map_eq_singleton_iff.1 hts
    rw [List.singleton_append, primary_reads_iff, ht]
    exact Or.inl ⟨hcall, (resolve_ok_iff hs).2 hn, rfl⟩
  | @call name e args hne hargs hcall ih =>
    refine .of_primary fun ts rest hts _ => ?_
    obtain ⟨t, tr, rfl, ht, htr⟩ := List.map_eq_cons_iff.1 hts
    obtain ⟨u, tr, rfl, hu, htr⟩ := List.map_eq_cons_iff.1 htr
    rw [List.cons_append, primary_reads_iff, ht]
    refine Or.inr ⟨u, tr ++ rest, args.map Prod.snd, rfl, hu, ?_, hcall⟩
    rw [arguments_reads_iff_of_no_close]
    · exact someArguments_reads hne ih rest htr
    · -- the first argument begins with no closing parenthesis
      obtain ⟨arg, more, rfl⟩ := List.exists_cons_of_ne_nil hne
      obtain ⟨s, tail, hbegin, hs⟩ := (hargs arg (List.mem_cons_self ..)).begins
      obtain ⟨post, hpost⟩ : ∃ post, [.comma].intercalate ((arg :: more).map Prod.fst) =
          arg.1 ++ post := by
        rcases more with _ | ⟨arg', more⟩
        · exact ⟨[], by simp⟩
        · exact ⟨_, by rw [List.map_cons, List.map_cons, List.intercalate_cons_cons,
            List.append_assoc]⟩
      have htr' : symbols tr = s :: (tail ++ post ++ [.closeParen]) := by
        rw [← List.cons_append, ← List.cons_append, ← hbegin, ← hpost]
        exact htr
      obtain ⟨v, tr', rfl, hv, -⟩ := List.map_eq_cons_iff.1 htr'
      intro w hw
      cases hw
      rw [hv]
      rintro rfl
      rcases hs with hs | ⟨hs, -⟩ <;> cases hs

end

/-! ## The whole list -/

/-- A list of tokens parses to what its symbols derive. -/
theorem parse_ok_iff {scope : Scope} (hs : scope.Proper) {finish : Nat} {ts : List Token}
    {e : Expr} : parse scope finish ts = .ok e ↔ Derives scope .disjunction (symbols ts) e := by
  have hall : parse scope finish ts = .ok e ↔ Reads (layer scope finish 0 ts) e [] := by
    unfold parse
    cases hl : layer scope finish 0 ts with
    | error err => simp [not_reads_error]
    | ok next =>
      obtain ⟨e', rest, hrest⟩ := next
      rw [reads_ok_iff]
      cases rest with
      | nil => simp [eq_comm]
      | cons t rest => dsimp only; split <;> simp
  rw [hall]
  constructor
  · intro h
    obtain ⟨taken, hts, hd⟩ := layer_sound hs h
    rw [List.append_nil] at hts
    exact hts ▸ hd
  · intro h
    have hread : Reads (layer scope finish 0 (ts ++ [])) e [] :=
      (h.reads hs).whole (Nat.zero_le _) rfl (stops_nil 0)
    rwa [List.append_nil] at hread

/-- No list of symbols has two trees. -/
theorem Derives.unique {scope : Scope} (hs : scope.Proper) {ss : List Symbol} {e e' : Expr}
    (h : Derives scope .disjunction ss e) (h' : Derives scope .disjunction ss e') : e = e' := by
  have hts : symbols (ss.map (Token.mk · 0)) = ss := by simp [symbols, Function.comp_def]
  rw [← hts] at h h'
  have hparse : ∀ {e}, Derives scope .disjunction (symbols (ss.map (Token.mk · 0))) e →
      parse scope 0 (ss.map (Token.mk · 0)) = .ok e := (parse_ok_iff hs).2
  exact Except.ok.inj ((hparse h).symm.trans (hparse h'))

/-- **The parser reads exactly the grammar.**  A list of tokens parses to a tree
    if and only if all of its symbols derive that tree as a disjunction, and
    they derive no other tree. -/
theorem parse_iff_derives (arity finish : Nat) (ts : List Token) :
    (∀ e, parse (.standard arity) finish ts = .ok e ↔
      Derives (.standard arity) .disjunction (symbols ts) e) ∧
    ∀ e e', Derives (.standard arity) .disjunction (symbols ts) e →
      Derives (.standard arity) .disjunction (symbols ts) e' → e = e' :=
  ⟨fun _ => parse_ok_iff (Scope.standard_proper arity),
    fun _ _ => Derives.unique (Scope.standard_proper arity)⟩

/-- The tokens of `-x^2` are a negated power, and nothing else. -/
theorem parse_negated_power :
    parse (.standard 1) 4 [⟨.minus, 0⟩, ⟨.name "x", 1⟩, ⟨.power, 2⟩, ⟨.number 2, 3⟩] =
        .ok (.unary .neg (.binary .pow (.var 0) (.number 2))) ∧
      ¬ Derives (.standard 1) .disjunction [.minus, .name "x", .power, .number 2]
        (.binary .pow (.unary .neg (.var 0)) (.number 2)) := by
  have hd : Derives (.standard 1) .disjunction [.minus, .name "x", .power, .number 2]
      (.unary .neg (.binary .pow (.var 0) (.number 2))) :=
    .disjunction_of_signed (.sign .neg (.include .power
      (.raise (.name (.var rfl Nat.one_pos)) (.signed_of_primary (.number 2)))))
  have hiff := parse_iff_derives 1 4
    [⟨.minus, 0⟩, ⟨.name "x", 1⟩, ⟨.power, 2⟩, ⟨.number 2, 3⟩]
  refine ⟨(hiff.1 _).2 hd, fun hd' => ?_⟩
  cases hiff.2 _ _ hd hd'

end JetEnergy.Formula
