import JetEnergy.Proofs.Formula.Lexing

/-!
  Programs compute the values of their trees.

  * `Expr.depth` is the room that a tree needs on the stack.  `height_ofExpr`:
    the height that a program counts in advance is this depth.
  * `run_code`: on any stack with that much room left, the code of a tree puts
    the value of the tree on top, whatever code follows.
  * `runs_of_compile`: a compiled formula has the value of its tree in either
    way of calling it, its run ends with that value alone on the stack, and
    each step on the way finds exactly its operands and has room for its
    result.
-/
namespace JetEnergy.Formula

/-- The greatest number of values on the stack at once while the code of a tree
    runs on an empty stack. -/
def Expr.depth : Expr → Nat
  | number _ | var _ | param _ => 1
  | unary _ a => a.depth
  | binary _ a b => max a.depth (b.depth + 1)
  | gaussian x m s => max x.depth (max (m.depth + 1) (s.depth + 2))
  | gaussianNorm x m s n =>
    max x.depth (max (m.depth + 1) (max (s.depth + 2) (n.depth + 3)))

theorem Expr.depth_pos (e : Expr) : 0 < e.depth := by
  induction e with
  | number | var | param => exact Nat.one_pos
  | unary op a ih => exact ih
  | binary op a b iha ihb => simp only [depth]; omega
  | gaussian x m s ihx ihm ihs => simp only [depth]; omega
  | gaussianNorm x m s n ihx ihm ihs ihn => simp only [depth]; omega

/-! ## The height counted in advance -/

/-- Counting through the code of a tree: one value more in the end, and the
    depth of the tree in between. -/
theorem peakHeight_code (e : Expr) (height peak : Nat) (rest : Code) :
    peakHeight height peak (e.code ++ rest) =
      peakHeight (height + 1) (max peak (height + e.depth)) rest := by
  -- the operands' peaks are gathered at one height; the operation adds none
  induction e generalizing height peak rest with
  | number | var | param => rfl
  | unary op a ih =>
    have ha := a.depth_pos
    have hlast : max (height + a.depth) (height + 1 + 1 - 1) = height + a.depth := by omega
    simp only [Expr.code, List.append_assoc, List.cons_append, List.nil_append, ih, peakHeight,
      Instruction.takes, Expr.depth, Nat.max_assoc, hlast]
    rfl
  | binary op a b iha ihb =>
    have hb := b.depth_pos
    have hlast : max (height + 1 + b.depth) (height + 1 + 1 + 1 - 2) =
        height + (b.depth + 1) := by omega
    simp only [Expr.code, List.append_assoc, List.cons_append, List.nil_append, iha, ihb,
      peakHeight, Instruction.takes, Expr.depth, Nat.max_assoc, hlast, Nat.add_max_add_left]
    rfl
  | gaussian x m s ihx ihm ihs =>
    have hs := s.depth_pos
    have hm : height + 1 + m.depth = height + (m.depth + 1) := by omega
    have hlast : max (height + 1 + 1 + s.depth) (height + 1 + 1 + 1 + 1 - 3) =
        height + (s.depth + 2) := by omega
    simp only [Expr.code, List.append_assoc, List.cons_append, List.nil_append, ihx, ihm, ihs,
      peakHeight, Instruction.takes, Expr.depth, Nat.max_assoc, hm, hlast, Nat.add_max_add_left]
    rfl
  | gaussianNorm x m s n ihx ihm ihs ihn =>
    have hn := n.depth_pos
    have hm : height + 1 + m.depth = height + (m.depth + 1) := by omega
    have hs : height + 1 + 1 + s.depth = height + (s.depth + 2) := by omega
    have hlast : max (height + 1 + 1 + 1 + n.depth) (height + 1 + 1 + 1 + 1 + 1 - 4) =
        height + (n.depth + 3) := by omega
    simp only [Expr.code, List.append_assoc, List.cons_append, List.nil_append, ihx, ihm, ihs,
      ihn, peakHeight, Instruction.takes, Expr.depth, Nat.max_assoc, hm, hs, hlast,
      Nat.add_max_add_left]
    rfl

theorem height_ofExpr (e : Expr) : (Program.ofExpr e).height = e.depth := by
  have h := peakHeight_code e 0 0 []
  rw [List.append_nil] at h
  simp only [Program.ofExpr, h, peakHeight]
  omega

theorem height_le_room (p : Program) : p.height ≤ p.room := by
  unfold Program.room; split
  · assumption
  · exact Nat.le_refl _

/-! ## Runs -/

section
variable {env : Environment} {room : Nat}

theorem push_ok {v : Float} {stack : List Float} (h : stack.length < room) :
    push room v stack = .ok (v :: stack) :=
  if_pos h

/-- **The code of a tree** puts the value of the tree on the stack, if the
    stack leaves room for its depth. -/
theorem run_code (e : Expr) (stack : List Float) (rest : Code)
    (h : stack.length + e.depth ≤ room) :
    run env room (e.code ++ rest) stack = run env room rest (e.value env :: stack) := by
  induction e generalizing stack rest with
  | number | var | param =>
    simp only [Expr.depth] at h
    simp only [Expr.code, List.cons_append, List.nil_append, run, Instruction.step,
      push_ok (show stack.length < room by omega), Expr.value]
  | unary op a ih =>
    have ha := a.depth_pos
    simp only [Expr.depth] at h
    simp only [Expr.code, List.append_assoc, List.cons_append, List.nil_append]
    rw [ih _ _ h]
    simp only [run, Instruction.step, push_ok (show stack.length < room by omega), Expr.value]
  | binary op a b iha ihb =>
    have ha := a.depth_pos
    simp only [Expr.depth] at h
    simp only [Expr.code, List.append_assoc, List.cons_append, List.nil_append]
    rw [iha _ _ (by omega), ihb _ _ (by simp only [List.length_cons]; omega)]
    simp only [run, Instruction.step, push_ok (show stack.length < room by omega), Expr.value]
  | gaussian x m s ihx ihm ihs =>
    have hx := x.depth_pos
    simp only [Expr.depth] at h
    simp only [Expr.code, List.append_assoc, List.cons_append, List.nil_append]
    rw [ihx _ _ (by omega), ihm _ _ (by simp only [List.length_cons]; omega),
      ihs _ _ (by simp only [List.length_cons]; omega)]
    simp only [run, Instruction.step, push_ok (show stack.length < room by omega), Expr.value]
  | gaussianNorm x m s n ihx ihm ihs ihn =>
    have hx := x.depth_pos
    simp only [Expr.depth] at h
    simp only [Expr.code, List.append_assoc, List.cons_append, List.nil_append]
    rw [ihx _ _ (by omega), ihm _ _ (by simp only [List.length_cons]; omega),
      ihs _ _ (by simp only [List.length_cons]; omega),
      ihn _ _ (by simp only [List.length_cons]; omega)]
    simp only [run, Instruction.step, push_ok (show stack.length < room by omega), Expr.value]

/-- A program ends with the value of its tree alone on the stack. -/
theorem run_ofExpr (e : Expr) (h : (Program.ofExpr e).height ≤ room) :
    run env room (Program.ofExpr e).code [] = .ok [e.value env] := by
  rw [height_ofExpr] at h
  have hr : run env room (e.code ++ []) [] = .ok [e.value env] :=
    run_code e [] [] (by simpa using h)
  rwa [List.append_nil] at hr

theorem value_ofExpr (e : Expr) : (Program.ofExpr e).value env = e.value env := by
  simp only [Program.value, result, run_ofExpr e (height_le_room _)]

/-- What a step that succeeds does: its operands make way for its result. -/
theorem step_ok {i : Instruction} {stack stack' : List Float}
    (h : i.step env room stack = .ok stack') :
    ∃ operands below v, stack = operands ++ below ∧ operands.length = i.takes ∧
      stack' = v :: below ∧ below.length < room := by
  have hpush : ∀ {v : Float} {below : List Float}, push room v below = .ok stack' →
      stack' = v :: below ∧ below.length < room := by
    intro v below hv
    unfold push at hv; split at hv
    · next hlt => exact ⟨(Except.ok.inj hv).symm, hlt⟩
    · cases hv
  unfold Instruction.step at h
  split at h
  · exact ⟨[], _, _, rfl, rfl, hpush h⟩
  · exact ⟨[], _, _, rfl, rfl, hpush h⟩
  · exact ⟨[], _, _, rfl, rfl, hpush h⟩
  · next a below => exact ⟨[a], below, _, rfl, rfl, hpush h⟩
  · next b a below => exact ⟨[b, a], below, _, rfl, rfl, hpush h⟩
  · next s m x below => exact ⟨[s, m, x], below, _, rfl, rfl, hpush h⟩
  · next n s m x below => exact ⟨[n, s, m, x], below, _, rfl, rfl, hpush h⟩
  · cases h

/-- More room changes nothing for a step that succeeds. -/
theorem step_mono {room' : Nat} (hr : room ≤ room') {i : Instruction} {stack stack' : List Float}
    (h : i.step env room stack = .ok stack') : i.step env room' stack = .ok stack' := by
  have hpush : ∀ {v : Float} {below : List Float}, push room v below = .ok stack' →
      push room' v below = .ok stack' := by
    intro v below hv
    unfold push at hv; split at hv
    · next hlt => rw [push_ok (Nat.lt_of_lt_of_le hlt hr)]; exact hv
    · cases hv
  unfold Instruction.step at h
  split at h
  all_goals first
    | exact hpush h
    | cases h

theorem run_mono {room' : Nat} (hr : room ≤ room') {code : Code} {stack stack' : List Float}
    (h : run env room code stack = .ok stack') : run env room' code stack = .ok stack' := by
  induction code generalizing stack with
  | nil => exact h
  | cons i code ih =>
    simp only [run] at h ⊢
    cases hs : i.step env room stack with
    | error fault => rw [hs] at h; cases h
    | ok next => rw [hs] at h; rw [step_mono hr hs]; exact ih h

/-- A run that succeeds succeeds up to each of its steps, and in that step. -/
theorem run_step {before : Code} {i : Instruction} {after : Code} {stack final : List Float}
    (h : run env room (before ++ i :: after) stack = .ok final) :
    ∃ reached next, run env room before stack = .ok reached ∧
      i.step env room reached = .ok next := by
  induction before generalizing stack with
  | nil =>
    simp only [List.nil_append, run] at h
    cases hs : i.step env room stack with
    | error fault => rw [hs] at h; cases h
    | ok next => exact ⟨stack, next, rfl, hs⟩
  | cons j before ih =>
    simp only [List.cons_append, run] at h ⊢
    cases hs : j.step env room stack with
    | error fault => rw [hs] at h; cases h
    | ok next => rw [hs] at h; exact ih h

end

/-! ## Compiled formulas -/

theorem entry_append (params : List Float) (extra : Float) :
    Environment.entry (params ++ [extra]) =
      fun i => if i = params.length then extra else Environment.entry params i := by
  funext i
  unfold Environment.entry
  split
  · next h => subst h; simp
  · next h =>
    rw [List.getD_eq_getElem?_getD, List.getD_eq_getElem?_getD]
    rcases Nat.lt_or_ge i params.length with hlt | hge
    · rw [List.getElem?_append_left hlt]
    · rw [List.getElem?_eq_none hge, List.getElem?_eq_none (by simp; omega)]

theorem compile_ok_iff {source : List Char} {arity : Nat} {f : Formula} :
    compile source arity = .ok f ↔ (1 ≤ arity ∧ arity ≤ greatestArity) ∧ f.source = source ∧
      f.arity = arity ∧ treeOf (.standard arity) source = .ok f.tree := by
  unfold compile
  split
  · next ha =>
    cases ht : treeOf (.standard arity) source with
    | error e => simp
    | ok tree =>
      obtain ⟨source', arity', tree', program, hp⟩ := f
      subst hp
      simp only [Except.ok.injEq, Formula.mk.injEq, ha, and_self, true_and]
      constructor
      · rintro ⟨rfl, rfl, rfl, -⟩; exact ⟨rfl, rfl, rfl⟩
      · rintro ⟨rfl, rfl, rfl⟩; exact ⟨rfl, rfl, rfl, rfl⟩
  · next ha => simp [ha]

theorem exists_compile {source : List Char} {arity : Nat} {e : Expr}
    (ha : 1 ≤ arity ∧ arity ≤ greatestArity) (h : treeOf (.standard arity) source = .ok e) :
    ∃ f, compile source arity = .ok f ∧ f.tree = e := by
  refine ⟨{ source, arity, tree := e }, ?_, rfl⟩
  rw [compile_ok_iff]
  exact ⟨ha, rfl, rfl, h⟩

theorem value_eq_tree (f : Formula) (vars params : List Float) :
    f.value vars params = f.tree.value (.ofLists vars params) := by
  rw [value, f.program_eq, value_ofExpr]

theorem valueWithExtra_eq_tree (f : Formula) (vars params : List Float) (extra : Float) :
    f.valueWithExtra vars params extra = f.tree.value (.ofLists vars (params ++ [extra])) := by
  rw [valueWithExtra, f.program_eq, value_ofExpr, Environment.ofLists, entry_append]
  rfl

/-- **A compiled formula computes the value of its tree.**  Both ways of calling
    it give the value of the tree that its text parses to.  In every
    environment and any room from the counted height on, the program's own
    included, the run ends with this value alone on the stack, and each step of
    it takes exactly its operands and leaves one value within that height. -/
theorem runs_of_compile {source : List Char} {arity : Nat} {f : Formula}
    (h : compile source arity = .ok f) (vars params : List Float) (extra : Float) :
    treeOf (.standard arity) source = .ok f.tree ∧
    f.value vars params = f.tree.value (.ofLists vars params) ∧
    f.valueWithExtra vars params extra = f.tree.value (.ofLists vars (params ++ [extra])) ∧
    f.program.height ≤ f.program.room ∧
    ∀ env room, f.program.height ≤ room →
      run env room f.program.code [] = .ok [f.tree.value env] ∧
      ∀ before i after, f.program.code = before ++ i :: after →
        ∃ operands below v, run env room before [] = .ok (operands ++ below) ∧
          operands.length = i.takes ∧
          i.step env room (operands ++ below) = .ok (v :: below) ∧
          below.length < f.program.height := by
  obtain ⟨-, -, -, htree⟩ := compile_ok_iff.1 h
  refine ⟨htree, value_eq_tree f vars params, valueWithExtra_eq_tree f vars params extra,
    height_le_room _, fun env room hroom => ?_⟩
  rw [f.program_eq] at hroom ⊢
  refine ⟨run_ofExpr f.tree hroom, fun before i after hcode => ?_⟩
  -- the least room bounds the height; more room leaves the run as it is
  have hrun : run env (Program.ofExpr f.tree).height (Program.ofExpr f.tree).code [] =
      .ok [f.tree.value env] := run_ofExpr f.tree (Nat.le_refl _)
  rw [hcode] at hrun
  obtain ⟨reached, next, hreach, hstep⟩ := run_step hrun
  obtain ⟨operands, below, v, rfl, htakes, rfl, hlt⟩ := step_ok hstep
  exact ⟨operands, below, v, run_mono hroom hreach, htakes, step_mono hroom hstep, hlt⟩

/-- A formula with a sum and a call, on a stack of just the counted height. -/
theorem runs_of_compile_sum : ∃ f, compile "[0]+max(x,[3])".toList 1 = .ok f ∧
    f.value [50] [1] = f.tree.value (.ofLists [50] [1]) ∧
    f.valueWithExtra [50] [1] 2 = f.tree.value (.ofLists [50] [1, 2]) ∧
    run (.ofLists [50] [1]) 3 f.program.code [] = .ok [f.tree.value (.ofLists [50] [1])] := by
  have hx : Derives (.standard 1) .primary [.name "x"] (.var 0) := .name (.var rfl Nat.one_pos)
  have hmax : Derives (.standard 1) .primary
      [.name "max", .openParen, .name "x", .comma, .parameter 3, .closeParen]
      (.binary .max (.var 0) (.param 3)) := by
    refine .call [([.name "x"], .var 0), ([.parameter 3], .param 3)] (by simp) ?_ rfl
    simp only [List.forall_mem_cons, List.not_mem_nil, false_implies, implies_true, and_true]
    exact ⟨.disjunction_of_signed (.signed_of_primary hx),
      .disjunction_of_signed (.signed_of_primary (.parameter 3))⟩
  have hsum : Derives (.standard 1) .disjunction
      [.parameter 0, .plus, .name "max", .openParen, .name "x", .comma, .parameter 3, .closeParen]
      (.binary .add (.param 0) (.binary .max (.var 0) (.param 3))) :=
    .include .conjunction (.include .comparison (.include .sum (.join .add
      (.include .product (.include .signed (.signed_of_primary (.parameter 0))))
      (.include .signed (.signed_of_primary hmax)))))
  have hread : treeOf (.standard 1) "[0]+max(x,[3])".toList =
      .ok (.binary .add (.param 0) (.binary .max (.var 0) (.param 3))) :=
    (treeOf_ok_iff (Scope.standard_proper 1)).2 ⟨_, by with_unfolding_all rfl, hsum⟩
  obtain ⟨f, hf, htree⟩ := exists_compile (by decide) hread
  obtain ⟨-, hvalue, hextra, -, hruns⟩ := runs_of_compile hf [50] [1] 2
  have hheight : f.program.height ≤ 3 := by
    rw [f.program_eq, height_ofExpr, htree]; decide
  exact ⟨f, hf, hvalue, hextra, (hruns _ 3 hheight).1⟩

end JetEnergy.Formula
