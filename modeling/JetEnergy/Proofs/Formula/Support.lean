import Mathlib.Data.List.GetD
import JetEnergy.Proofs.Formula.Variables

/-!
  What the value of a formula depends on.

  * `Expr.params` lists the parameters of a tree; its code reads just these
    (`param_mem_code_iff`).
  * `run_congr`: environments that agree on the variables and parameters that code
    reads are the same to it.
  * `slots_ok_iff`: the number of slots is the least one above every parameter, if
    that is a word; `exists_slots_iff`: it is one unless the greatest word is the
    index of a parameter.
  * `value_depends_on_support`: a compiled formula depends on as many variables as
    its arity says and on as many parameters as it has slots, and its greatest
    parameter has the last slot.
-/
namespace JetEnergy.Formula

/-- The parameters of a tree, from left to right. -/
def Expr.params : Expr → List Nat
  | number _ | var _ => []
  | param i => [i]
  | unary _ a => a.params
  | binary _ a b => a.params ++ b.params
  | gaussian x m s => x.params ++ m.params ++ s.params
  | gaussianNorm x m s n => x.params ++ m.params ++ s.params ++ n.params

/-- The code of a tree reads the parameters of the tree. -/
theorem param_mem_code_iff {i : Nat} {e : Expr} : .param i ∈ e.code ↔ i ∈ e.params := by
  induction e with
  | number | var => simp [Expr.code, Expr.params]
  | param j => simp [Expr.code, Expr.params]
  | unary op a iha => simp [Expr.code, Expr.params, iha]
  | binary op a b iha ihb => simp [Expr.code, Expr.params, iha, ihb]
  | gaussian x m s ihx ihm ihs => simp [Expr.code, Expr.params, ihx, ihm, ihs]
  | gaussianNorm x m s n ihx ihm ihs ihn => simp [Expr.code, Expr.params, ihx, ihm, ihs, ihn]

/-! ## Environments that agree -/

/-- Two environments agree on what code reads. -/
structure AgreeOn (code : Code) (env env' : Environment) : Prop where
  var : ∀ i, .var i ∈ code → env.var i = env'.var i
  param : ∀ i, .param i ∈ code → env.param i = env'.param i

section
variable {env env' : Environment} {room : Nat}

/-- Only the steps that read a variable or a parameter look at the environment. -/
theorem step_congr {i : Instruction} {code : Code} (h : AgreeOn (i :: code) env env')
    (stack : List Float) : i.step env room stack = i.step env' room stack := by
  cases i with
  | var j => exact congrArg (push room · stack) (h.var j (List.mem_cons_self ..))
  | param j => exact congrArg (push room · stack) (h.param j (List.mem_cons_self ..))
  | number v => rfl
  | unary op => rcases stack with _ | ⟨a, _⟩ <;> rfl
  | binary op => rcases stack with _ | ⟨b, _ | ⟨a, _⟩⟩ <;> rfl
  | gaussian => rcases stack with _ | ⟨s, _ | ⟨m, _ | ⟨x, _⟩⟩⟩ <;> rfl
  | gaussianNorm => rcases stack with _ | ⟨n, _ | ⟨s, _ | ⟨m, _ | ⟨x, _⟩⟩⟩⟩ <;> rfl

theorem run_congr {code : Code} (h : AgreeOn code env env') (stack : List Float) :
    run env room code stack = run env' room code stack := by
  induction code generalizing stack with
  | nil => rfl
  | cons i code ih =>
    have hcode : AgreeOn code env env' :=
      ⟨fun j hj => h.var j (List.mem_cons_of_mem _ hj),
        fun j hj => h.param j (List.mem_cons_of_mem _ hj)⟩
    rw [run, run, step_congr h]
    cases i.step env' room stack with
    | error fault => rfl
    | ok next => exact ih hcode next

theorem value_congr {p : Program} (h : AgreeOn p.code env env') : p.value env = p.value env' := by
  rw [Program.value, Program.value, result, result, run_congr h]

end

/-! ## Slots -/

theorem greatestParam?_cases (code : Code) :
    (greatestParam? code = none ∧ ∀ i, .param i ∉ code) ∨
      ∃ n, greatestParam? code = some n ∧ .param n ∈ code ∧ ∀ i, .param i ∈ code → i ≤ n := by
  induction code with
  | nil => exact Or.inl ⟨rfl, fun i hi => nomatch hi⟩
  | cons step code ih =>
    cases step with
    | param j =>
      right
      rcases ih with ⟨hnone, hnot⟩ | ⟨n, hn, hmem, hle⟩
      · refine ⟨j, by rw [greatestParam?, hnone]; rfl, List.mem_cons_self .., fun i hi => ?_⟩
        rcases List.mem_cons.1 hi with hi | hi
        · cases hi; exact Nat.le_refl _
        · exact absurd hi (hnot i)
      · refine ⟨max j n, by rw [greatestParam?, hn]; rfl, ?_, fun i hi => ?_⟩
        · rcases Nat.le_total j n with hjn | hnj
          · exact List.mem_cons_of_mem _ (by rwa [Nat.max_eq_right hjn])
          · rw [Nat.max_eq_left hnj]
            exact List.mem_cons_self ..
        · rcases List.mem_cons.1 hi with hi | hi
          · cases hi; exact Nat.le_max_left ..
          · exact Nat.le_trans (hle i hi) (Nat.le_max_right ..)
    | number | var | unary | binary | gaussian | gaussianNorm => simpa [greatestParam?] using ih

theorem greatest_cases (f : Formula) :
    (f.program.greatest = none ∧ ∀ i, i ∉ f.tree.params) ∨
      ∃ n, f.program.greatest = some n ∧ n ∈ f.tree.params ∧ ∀ i ∈ f.tree.params, i ≤ n := by
  have hgreatest : f.program.greatest = greatestParam? f.tree.code := by rw [f.program_eq]; rfl
  rw [hgreatest]
  simpa only [param_mem_code_iff] using greatestParam?_cases f.tree.code

/-- The number of slots is the least one above every parameter. -/
theorem slots_ok_iff {f : Formula} {s : Nat} :
    f.slots = .ok s ↔
      s < Decimal.indexBound ∧ (∀ i ∈ f.tree.params, i < s) ∧ (0 < s → s - 1 ∈ f.tree.params) := by
  rw [slots]
  rcases greatest_cases f with ⟨hnone, hnot⟩ | ⟨n, hn, hmem, hle⟩
  · rw [hnone, Except.ok.injEq]
    constructor
    · rintro rfl
      exact ⟨by decide, fun i hi => absurd hi (hnot i), fun hpos => absurd hpos (Nat.lt_irrefl _)⟩
    · rintro ⟨-, -, hlast⟩
      by_contra hne
      exact hnot _ (hlast (by omega))
  · rw [hn]
    dsimp only
    have hs : (∀ i ∈ f.tree.params, i < s) ∧ (0 < s → s - 1 ∈ f.tree.params) ↔ s = n + 1 := by
      constructor
      · rintro ⟨hlt, hlast⟩
        have hns := hlt n hmem
        have hsn := hle _ (hlast (by omega))
        omega
      · rintro rfl
        exact ⟨fun i hi => Nat.lt_succ_of_le (hle i hi), fun _ => hmem⟩
    rw [hs]
    split <;> simp <;> omega

/-- The slots can be counted unless a parameter has the greatest word as its
    index. -/
theorem exists_slots_iff {f : Formula} :
    (∃ s, f.slots = .ok s) ↔ ∀ i ∈ f.tree.params, i + 1 < Decimal.indexBound := by
  constructor
  · rintro ⟨s, hs⟩ i hi
    obtain ⟨hword, hlt, -⟩ := slots_ok_iff.1 hs
    exact Nat.lt_of_le_of_lt (hlt i hi) hword
  · intro h
    rcases greatest_cases f with ⟨hnone, -⟩ | ⟨n, hn, hmem, -⟩
    · exact ⟨0, by rw [slots, hnone]⟩
    · exact ⟨n + 1, by rw [slots, hn]; exact if_pos (h n hmem)⟩

/-! ## Compiled formulas -/

theorem entry_of_le {values : List Float} {i : Nat} (h : values.length ≤ i) :
    Environment.entry values i = 0 :=
  List.getD_eq_default _ _ h

theorem entry_append_left {values : List Float} {i : Nat} (h : i < values.length)
    (more : List Float) :
    Environment.entry (values ++ more) i = Environment.entry values i :=
  List.getD_append _ _ _ _ h

/-- Zeros after a list are what its end reads as. -/
theorem entry_append_zeros (values : List Float) (n i : Nat) :
    Environment.entry (values ++ List.replicate n 0) i = Environment.entry values i := by
  rcases Nat.lt_or_ge i values.length with hlt | hge
  · exact entry_append_left hlt _
  · rw [entry_of_le hge, Environment.entry, List.getD_append_right _ _ _ _ hge,
      List.getD_eq_getElem?_getD, List.getElem?_replicate]
    split <;> rfl

section
variable {source : List Char} {arity : Nat} {f : Formula} (h : compile source arity = .ok f)
include h

theorem value_of_agree {vars vars' params params' : List Float}
    (hvars : ∀ i < arity, Environment.entry vars i = Environment.entry vars' i)
    (hparams : ∀ i ∈ f.tree.params, Environment.entry params i = Environment.entry params' i) :
    f.value vars params = f.value vars' params' := by
  refine value_congr ⟨fun i hi => hvars i (var_lt_of_compile h hi), fun i hi => hparams i ?_⟩
  rw [f.program_eq] at hi
  exact param_mem_code_iff.1 hi

theorem value_append {s : Nat} (hs : f.slots = .ok s) {params : List Float}
    (hlength : s ≤ params.length) (vars more : List Float) :
    f.value vars (params ++ more) = f.value vars params :=
  value_of_agree h (fun _ _ => rfl) fun i hi =>
    entry_append_left (Nat.lt_of_lt_of_le ((slots_ok_iff.1 hs).2.1 i hi) hlength) more

end

theorem valueWithExtra_eq_append (f : Formula) (vars params : List Float) (extra : Float) :
    f.valueWithExtra vars params extra = f.value vars (params ++ [extra]) := by
  rw [valueWithExtra_eq_tree, value_eq_tree]

/-- **The support of a compiled formula.**  The slots of its parameters are counted
    unless the greatest word is the index of a parameter. Its value depends on the
    first variables, as many as the arity says, and on the first parameters, as many
    as there are slots; what is not there counts as 0. So zeros after the parameters
    change nothing, nor does anything from the last slot on. There are no slots just
    if the tree of the text has no parameter; otherwise the last slot is that of its
    greatest parameter. One more parameter is one at the end of the list, and
    without effect if the list fills all slots. -/
theorem value_depends_on_support {source : List Char} {arity : Nat} {f : Formula}
    (h : compile source arity = .ok f) :
    ∃ tree, treeOf (.standard arity) source = .ok tree ∧
      ((∃ s, f.slots = .ok s) ↔ ∀ i ∈ tree.params, i + 1 < Decimal.indexBound) ∧
      (∀ s, f.slots = .ok s →
        (∀ vars vars' params params' : List Float,
          (∀ i < arity, Environment.entry vars i = Environment.entry vars' i) →
          (∀ i < s, Environment.entry params i = Environment.entry params' i) →
          f.value vars params = f.value vars' params') ∧
        (∀ vars params more, s ≤ params.length →
          f.value vars (params ++ more) = f.value vars params) ∧
        (s = 0 ↔ tree.params = []) ∧ (0 < s → s - 1 ∈ tree.params) ∧
        (∀ i ∈ tree.params, i < s) ∧
        ∀ vars params extra, s ≤ params.length →
          f.valueWithExtra vars params extra = f.value vars params) ∧
      (∀ vars params n, f.value vars (params ++ List.replicate n 0) = f.value vars params) ∧
      ∀ vars params extra,
        f.valueWithExtra vars params extra = f.value vars (params ++ [extra]) := by
  obtain ⟨-, -, -, htree⟩ := compile_ok_iff.1 h
  refine ⟨f.tree, htree, exists_slots_iff, fun s hs => ?_, fun vars params n => ?_,
    valueWithExtra_eq_append f⟩
  · obtain ⟨-, hlt, hlast⟩ := slots_ok_iff.1 hs
    refine ⟨fun vars vars' params params' hvars hparams =>
        value_of_agree h hvars fun i hi => hparams i (hlt i hi),
      fun vars params more hlength => value_append h hs hlength vars more, ?_, hlast, hlt,
      fun vars params extra hlength => ?_⟩
    · rw [List.eq_nil_iff_forall_not_mem]
      constructor
      · rintro rfl i hi
        exact absurd (hlt i hi) (Nat.not_lt_zero _)
      · intro hnil
        by_contra hne
        exact hnil _ (hlast (Nat.pos_of_ne_zero hne))
    · rw [valueWithExtra_eq_append, value_append h hs hlength]
  · exact value_of_agree h (fun _ _ => rfl) fun i _ => entry_append_zeros params n i

/-- The shape `expo` has two parameters, though none is written. -/
theorem value_depends_on_support_expo : ∃ f, compile "expo".toList 1 = .ok f ∧
    f.slots = .ok 2 ∧ f.value [50, 0.5] [1, 0.1, 7] = f.value [50] [1, 0.1] ∧
    f.valueWithExtra [50] [1, 0.1] 7 = f.value [50] [1, 0.1] := by
  have hread : treeOf (.standard 1) "expo".toList =
      .ok (.unary .exp (.binary .add (.param 0) (.binary .mul (.param 1) (.var 0)))) :=
    (treeOf_ok_iff (Scope.standard_proper 1)).2 ⟨_, by with_unfolding_all rfl,
      .disjunction_of_signed (.signed_of_primary (.name (.expo Nat.one_pos)))⟩
  obtain ⟨f, hf, htree⟩ := exists_compile (by decide) hread
  have hslots : f.slots = .ok 2 := by rw [slots, f.program_eq, htree]; rfl
  obtain ⟨_, -, -, hsupport, -⟩ := value_depends_on_support hf
  obtain ⟨hagree, -, -, -, -, hextra⟩ := hsupport 2 hslots
  refine ⟨f, hf, hslots, hagree _ _ _ _ (fun i hi => ?_) (fun i hi => ?_),
    hextra _ _ _ (Nat.le_refl _)⟩
  · obtain rfl : i = 0 := by omega
    rfl
  · obtain rfl | rfl : i = 0 ∨ i = 1 := by omega
    · rfl
    · rfl

/-- The slots of a parameter with the greatest index cannot be counted. -/
example : slots ⟨[], 1, .param (Decimal.indexBound - 1), .ofExpr _, rfl⟩ =
    .error .tooManySlots := by
  decide

end JetEnergy.Formula
