import JetEnergy.Proofs.Formula.Execution
import JetEnergy.Proofs.Formula.Transport

/-!
  The variables that a formula reads.

  * `Expr.vars` lists the variables of a tree; its code reads just these
    (`var_mem_code_iff`).
  * `Derives.tree`: a property of trees that names, numbers and parameters have
    and every operation keeps holds of every derived tree.
  * `var_lt_of_compile`: a compiled formula reads variables below its arity
    only.
-/
namespace JetEnergy.Formula

/-- The variables of a tree, from left to right. -/
def Expr.vars : Expr → List Nat
  | number _ | param _ => []
  | var i => [i]
  | unary _ a => a.vars
  | binary _ a b => a.vars ++ b.vars
  | gaussian x m s => x.vars ++ m.vars ++ s.vars
  | gaussianNorm x m s n => x.vars ++ m.vars ++ s.vars ++ n.vars

/-- The code of a tree reads the variables of the tree. -/
theorem var_mem_code_iff {i : Nat} {e : Expr} : .var i ∈ e.code ↔ i ∈ e.vars := by
  induction e with
  | number | param => simp [Expr.code, Expr.vars]
  | var j => simp [Expr.code, Expr.vars]
  | unary op a iha => simp [Expr.code, Expr.vars, iha]
  | binary op a b iha ihb => simp [Expr.code, Expr.vars, iha, ihb]
  | gaussian x m s ihx ihm ihs => simp [Expr.code, Expr.vars, ihx, ihm, ihs]
  | gaussianNorm x m s n ihx ihm ihs ihn => simp [Expr.code, Expr.vars, ihx, ihm, ihs, ihn]

/-- What names, numbers and parameters have and every operation keeps holds of
    derived trees. -/
theorem Derives.tree {scope : Scope} {P : Expr → Prop} (hP : Respects fun e _ => P e)
    (hname : ∀ {name e}, Denotes scope name e → P e) (hnumber : ∀ v, P (.number v))
    (hparam : ∀ i, P (.param i)) {c : Construct} {ss : List Symbol} {e : Expr}
    (h : Derives scope c ss e) : P e := by
  induction h with
  | «include» _ _ ih => exact ih
  | @join _ _ _ _ _ _ a b _ _ _ iha ihb => exact @Respects.binary _ hP _ a a b b iha ihb
  | @sign _ _ _ a hs _ iha => exact @Respects.signs _ hP _ _ hs a a iha
  | @raise _ _ a b _ _ iha ihb => exact @Respects.binary _ hP _ a a b b iha ihb
  | number v => exact hnumber v
  | parameter i => exact hparam i
  | parens _ ih => exact ih
  | name hn => exact hname hn
  | call args _ _ hcall ih =>
    obtain ⟨f, -, hf⟩ := callNamed_ok_iff.1 hcall
    have hargs : List.Forall₂ (fun e _ => P e) (args.map Prod.snd) (args.map Prod.snd) := by
      rw [List.forall₂_same]
      intro a ha
      obtain ⟨arg, harg, rfl⟩ := List.mem_map.1 ha
      exact ih arg harg
    obtain ⟨e', hf', he⟩ := hP.call hargs hf
    exact he

/-- A tree of a formula has the variables of its scope only. -/
theorem Derives.var_lt {scope : Scope} {c : Construct} {ss : List Symbol} {e : Expr}
    (h : Derives scope c ss e) : ∀ i ∈ e.vars, i < scope.arity := by
  refine h.tree (P := fun e => ∀ i ∈ e.vars, i < scope.arity) ?_ ?_ ?_ ?_
  · constructor
    · intro op a a' ha; exact ha
    · intro op a a' b b' ha hb i hi
      rcases List.mem_append.1 hi with hi | hi
      · exact ha i hi
      · exact hb i hi
    · intro x x' m m' s s' hx hm hs
      simp only [Expr.vars, List.forall_mem_append]
      exact ⟨⟨hx, hm⟩, hs⟩
    · intro x x' m m' s s' n n' hx hm hs hn
      simp only [Expr.vars, List.forall_mem_append]
      exact ⟨⟨⟨hx, hm⟩, hs⟩, hn⟩
  · intro name e hn i hi
    cases hn with
    | var _ hlt => obtain rfl := List.mem_singleton.1 hi; exact hlt
    | pi | tmathPi => cases hi
    | gaus h0 | expo h0 =>
      obtain rfl : i = 0 := by simpa [Expr.vars] using hi
      exact h0
  · intro v i hi; cases hi
  · intro j i hi; cases hi

/-- **The variables of a compiled formula** are below its arity. -/
theorem var_lt_of_compile {source : List Char} {arity : Nat} {f : Formula}
    (h : compile source arity = .ok f) {i : Nat} (hi : .var i ∈ f.program.code) : i < arity := by
  obtain ⟨-, -, -, htree⟩ := compile_ok_iff.1 h
  obtain ⟨ss, -, hd⟩ := (treeOf_ok_iff (Scope.standard_proper arity)).1 htree
  rw [f.program_eq] at hi
  exact hd.var_lt i (var_mem_code_iff.1 hi)

end JetEnergy.Formula
