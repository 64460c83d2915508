import JetEnergy.Proofs.Formula.Execution
import JetEnergy.Proofs.Formula.FoldedText
import JetEnergy.Proofs.Lists

/-!
  Folding a fourth variable into a parameter.

  * `Scope.withFourth` has a fourth variable `t` beside x, y and z, and
    `Expr.asParam` reads a variable of a tree as a parameter.
  * `treeOf_fold_iff`: a folded text has the tree of the text itself over four
    variables, with the fourth one read as a parameter.
  * `value_asParam`: this tree has the value of the tree over four variables
    where the parameter has the value of the fourth one.
-/
namespace JetEnergy.Formula

open Decimal

/-- The scope of a formula of x, y, z and t. -/
def Scope.withFourth : Scope :=
  ⟨["x", "y", "z", "t"], 4⟩

theorem Scope.withFourth_proper : Scope.withFourth.Proper where
  nodup := by simp [withFourth]
  unreserved := by simp [withFourth, reservedNames]

/-- A tree in which variable `index` is parameter `slot`. -/
def Expr.asParam (index slot : Nat) : Expr → Expr
  | number v => .number v
  | var i => if i = index then .param slot else .var i
  | param i => .param i
  | unary op a => .unary op (a.asParam index slot)
  | binary op a b => .binary op (a.asParam index slot) (b.asParam index slot)
  | gaussian x m s => .gaussian (x.asParam index slot) (m.asParam index slot) (s.asParam index slot)
  | gaussianNorm x m s n =>
    .gaussianNorm (x.asParam index slot) (m.asParam index slot) (s.asParam index slot)
      (n.asParam index slot)

/-- A tree with a variable as a parameter reads the parameter for it. -/
theorem value_asParam (index slot : Nat) (e : Expr) (env : Environment) :
    (e.asParam index slot).value env =
      e.value ⟨fun i => if i = index then env.param slot else env.var i, env.param⟩ := by
  induction e with
  | number v => rfl
  | var i =>
    by_cases h : i = index
    · simp [Expr.asParam, Expr.value, h]
    · simp [Expr.asParam, Expr.value, h]
  | param i => rfl
  | unary op a ih => simp only [Expr.asParam, Expr.value, ih]
  | binary op a b iha ihb => simp only [Expr.asParam, Expr.value, iha, ihb]
  | gaussian x m s ihx ihm ihs => simp only [Expr.asParam, Expr.value, ihx, ihm, ihs]
  | gaussianNorm x m s n ihx ihm ihs ihn =>
    simp only [Expr.asParam, Expr.value, ihx, ihm, ihs, ihn]

/-! ## Symbols and trees fold alike -/

theorem Derives.operand {scope : Scope} {s : Symbol} {e : Expr}
    (h : Derives scope .primary [s] e) : (∃ v, s = .number v ∧ e = .number v) ∨
      (∃ i, s = .parameter i ∧ e = .param i) ∨ ∃ name, s = .name name ∧ Denotes scope name e := by
  generalize hc : Construct.primary = c, hss : [s] = ss at h
  cases h with
  | «include» hi => subst hc; cases hi
  | join hj => subst hc; cases hj
  | sign => cases hc
  | raise => cases hc
  | number v => cases hss; exact Or.inl ⟨v, rfl, rfl⟩
  | parameter i => cases hss; exact Or.inr (Or.inl ⟨i, rfl, rfl⟩)
  | parens => simp at hss
  | name hn => cases hss; exact Or.inr (Or.inr ⟨_, rfl, hn⟩)
  | call => simp at hss

theorem denotes_t {e : Expr} : Denotes .withFourth "t" e ↔ e = .var 3 := by
  constructor
  · intro h
    generalize ht : "t" = name at h
    cases h with
    | @var _ index hget hi =>
      subst ht
      match index with
      | 3 => rfl
      | 0 | 1 | 2 => simp [Scope.withFourth] at hget
      | index + 4 => simp [Scope.withFourth] at hget
    | pi | tmathPi | gaus | expo => simp at ht
  · rintro rfl
    exact .var rfl (by decide)

theorem denotes_withFourth_iff {name : String} (h : name ≠ "t") {e : Expr} :
    Denotes .withFourth name e ↔ Denotes (.standard 3) name e := by
  constructor
  · intro hd
    cases hd with
    | @var _ index hget hi =>
      match index with
      | 0 | 1 | 2 => exact .var hget (by decide)
      | 3 => cases hget; exact absurd rfl h
      | index + 4 => simp [Scope.withFourth] at hget
    | pi => exact .pi
    | tmathPi => exact .tmathPi
    | gaus => exact .gaus (by decide)
    | expo => exact .expo (by decide)
  · intro hd
    cases hd with
    | @var _ index hget hi =>
      match index with
      | 0 | 1 | 2 => exact .var hget (by decide)
      | index + 3 => exact absurd hi (by simp [Scope.standard])
    | pi => exact .pi
    | tmathPi => exact .tmathPi
    | gaus => exact .gaus (by decide)
    | expo => exact .expo (by decide)

/-- Names other than `t` do not stand for the fourth variable. -/
theorem Denotes.asParam {name : String} {e : Expr} (h : Denotes (.standard 3) name e)
    (slot : Nat) : e.asParam 3 slot = e := by
  cases h with
  | @var _ index _ hi =>
    have hne : index ≠ 3 := Nat.ne_of_lt hi
    simp [Expr.asParam, hne]
  | pi | tmathPi | gaus | expo => rfl

theorem asParam_respects (index slot : Nat) : Respects fun e e' => e' = e.asParam index slot where
  unary ha := by rw [ha]; rfl
  binary ha hb := by rw [ha, hb]; rfl
  gaussian hx hm hs := by rw [hx, hm, hs]; rfl
  gaussianNorm hx hm hs hn := by rw [hx, hm, hs, hn]; rfl

theorem foldSymbol_name {name : String} (h : name ≠ "t") (slot : Nat) :
    foldSymbol slot (.name name) = .name name :=
  if_neg h

theorem foldSymbol_eq_number (slot : Nat) {s : Symbol} {v : Float} :
    foldSymbol slot s = .number v ↔ s = .number v := by
  cases s with
  | name name =>
    by_cases h : name = "t"
    · simp [foldSymbol, h]
    · simp [foldSymbol, h]
  | _ => simp [foldSymbol]

theorem foldSymbol_eq_parameter (slot : Nat) {s : Symbol} {i : Nat} :
    foldSymbol slot s = .parameter i ↔ s = .parameter i ∨ s = .name "t" ∧ slot = i := by
  cases s with
  | name name =>
    by_cases h : name = "t"
    · simp [foldSymbol, h]
    · simp [foldSymbol, h]
  | _ => simp [foldSymbol]

theorem foldSymbol_eq_name (slot : Nat) {s : Symbol} {name : String} :
    foldSymbol slot s = .name name ↔ s = .name name ∧ name ≠ "t" := by
  cases s with
  | name name' =>
    by_cases h : name' = "t"
    · subst h
      constructor
      · intro heq; cases heq
      · rintro ⟨heq, hne⟩; cases heq; exact absurd rfl hne
    · rw [foldSymbol_name h, Symbol.name.injEq]
      exact ⟨fun heq => ⟨heq, heq ▸ h⟩, And.left⟩
  | _ => simp [foldSymbol]

/-- Folding carries derivations over four variables to derivations over three. -/
theorem carries_fold (slot : Nat) : Carries .withFourth (.standard 3)
    (fun s s' => s' = foldSymbol slot s) (fun e e' => e' = e.asParam 3 slot) where
  toRespects := asParam_respects 3 slot
  primary := by
    rintro s s' e rfl hd
    rcases hd.operand with ⟨v, rfl, rfl⟩ | ⟨i, rfl, rfl⟩ | ⟨name, rfl, hn⟩
    · exact ⟨_, .number v, rfl⟩
    · exact ⟨_, .parameter i, rfl⟩
    · by_cases h : name = "t"
      · subst h
        rw [denotes_t.1 hn]
        exact ⟨_, .parameter slot, rfl⟩
      · rw [foldSymbol_name h]
        have hn' := (denotes_withFourth_iff h).1 hn
        exact ⟨e, .name hn', (hn'.asParam slot).symm⟩
  fixed := by
    rintro s s' rfl hs
    exact foldSymbol_of_not_operand hs
  called := by
    rintro name s' rfl hf
    exact foldSymbol_name (by rintro rfl; exact absurd hf (by decide)) slot

/-- And it does so backwards. -/
theorem carries_unfold (slot : Nat) : Carries (.standard 3) .withFourth
    (fun s' s => s' = foldSymbol slot s) (fun e' e => e' = e.asParam 3 slot) where
  toRespects := (asParam_respects 3 slot).flip
  primary := by
    rintro s' s e hs hd
    rcases hd.operand with ⟨v, rfl, rfl⟩ | ⟨i, rfl, rfl⟩ | ⟨name, rfl, hn⟩
    · rw [(foldSymbol_eq_number slot).1 hs.symm]
      exact ⟨_, .number v, rfl⟩
    · rcases (foldSymbol_eq_parameter slot).1 hs.symm with rfl | ⟨rfl, rfl⟩
      · exact ⟨_, .parameter i, rfl⟩
      · exact ⟨.var 3, .name (denotes_t.2 rfl), rfl⟩
    · obtain ⟨rfl, hne⟩ := (foldSymbol_eq_name slot).1 hs.symm
      exact ⟨e, .name ((denotes_withFourth_iff hne).2 hn), (hn.asParam slot).symm⟩
  fixed := by
    rintro s' s rfl hs
    cases s with
    | name name =>
      by_cases h : name = "t"
      · subst h; cases hs
      · rw [foldSymbol_name h] at hs; cases hs
    | _ => rfl
  called := by
    rintro name s hs hf
    exact ((foldSymbol_eq_name slot).1 hs.symm).1

/-! ## Trees of folded texts -/

theorem not_lone_of_known : ∀ name ∈ knownNames .withFourth, name ≠ "t" →
    lone none name.toList = false := by
  decide

/-- A tree of the text over four variables is one of the folded text, if the
    parameter is an index. -/
theorem treeOf_fold {slot : Nat} (hslot : slot < indexBound) {source : List Char} {e : Expr}
    (h : treeOf .withFourth source = .ok e) :
    treeOf (.standard 3) (fold 't' slot source) = .ok (e.asParam 3 slot) := by
  obtain ⟨ss, hss, hd⟩ := (treeOf_ok_iff Scope.withFourth_proper).1 h
  rcases fold_symbols? slot source with hfold | ⟨-, hname⟩
  · rw [hss] at hfold
    obtain ⟨e', hd', rfl⟩ := hd.carry (carries_fold slot) (forall₂_map (foldSymbol slot) ss)
    exact (treeOf_ok_iff (Scope.standard_proper 3)).2 ⟨_, hfold, hd'⟩
  · -- a `t` is lone in a longer name, but no such name is known
    obtain ⟨name, hmem, hne, hlone⟩ := hname hslot ss hss
    rw [not_lone_of_known name (hd.name_known hmem) hne] at hlone
    cases hlone

/-- Every tree of a folded text comes from one of the text over four
    variables. -/
theorem exists_treeOf_of_fold {slot : Nat} {source : List Char} {e' : Expr}
    (h : treeOf (.standard 3) (fold 't' slot source) = .ok e') :
    ∃ e, treeOf .withFourth source = .ok e ∧ e' = e.asParam 3 slot := by
  obtain ⟨ss', hss', hd⟩ := (treeOf_ok_iff (Scope.standard_proper 3)).1 h
  rcases fold_symbols? slot source with hfold | ⟨hapart, -⟩
  · rw [hss'] at hfold
    obtain ⟨ss, hss, rfl⟩ := Option.map_eq_some_iff.1 hfold.symm
    have hrel : List.Forall₂ (fun s' s => s' = foldSymbol slot s) (ss.map (foldSymbol slot)) ss :=
      (forall₂_map (foldSymbol slot) ss).flip
    obtain ⟨e, hd', he⟩ := hd.carry (carries_unfold slot) hrel
    exact ⟨e, (treeOf_ok_iff Scope.withFourth_proper).2 ⟨ss, hss, hd'⟩, he⟩
  · -- the index was put next to another operand, as in `2t`
    exact absurd hd.apart (hapart ss' hss')

/-- **Folding is sound and complete.**  A folded text has the tree of the text
    over four variables, with the fourth variable read as the parameter. -/
theorem treeOf_fold_iff {slot : Nat} (hslot : slot < indexBound) {source : List Char} {e' : Expr} :
    treeOf (.standard 3) (fold 't' slot source) = .ok e' ↔
      ∃ e, treeOf .withFourth source = .ok e ∧ e' = e.asParam 3 slot := by
  constructor
  · exact exists_treeOf_of_fold
  · rintro ⟨e, h, rfl⟩
    exact treeOf_fold hslot h

end JetEnergy.Formula
