import JetEnergy.Formula.Parser

/-!
  The grammar of formulas, over symbols.

      disjunction  =  conjunction { || conjunction }
      conjunction  =  comparison { && comparison }
      comparison   =  sum { (< | > | <= | >= | == | !=) sum }
      sum          =  product { (+ | -) product }
      product      =  signed { (* | /) signed }
      signed       =  (- | + | !) signed  |  power
      power        =  primary [ ^ signed ]
      primary      =  number  |  parameter  |  ( disjunction )  |  name
                   |  name ( disjunction { , disjunction } )

  * `Derives c ss e`: the symbols `ss` as a whole are a construct of kind `c`,
    with the tree `e`.  Operators in braces group to the left: what stands on
    their left is a construct of the same kind, what stands on their right one
    of the next kind.
  * `Denotes`: the tree of a name that stands alone.
  * A `Scope.Proper` names each variable once and leaves the names that mean
    something else alone; `resolve_ok_iff`: in such a scope `Scope.resolve`
    gives the trees of `Denotes`.
-/
namespace JetEnergy.Formula

/-! ## Names -/

/-- The names that stand for something else than a variable. -/
def reservedNames : List String :=
  ["pi", "TMath::Pi", "gaus", "expo"]

/-- A scope with a name of its own for every variable. -/
structure Scope.Proper (scope : Scope) : Prop where
  nodup : scope.names.Nodup
  unreserved : ∀ name ∈ reservedNames, name ∉ scope.names

/-- The trees of names that stand alone: variables that the formula has, π, and
    the shapes `gaus` and `expo` over the first variable. -/
inductive Denotes (scope : Scope) : String → Expr → Prop
  | var {name index} : scope.names[index]? = some name → index < scope.arity →
      Denotes scope name (.var index)
  | pi : Denotes scope "pi" (.number pi)
  | tmathPi : Denotes scope "TMath::Pi" (.number pi)
  | gaus : 0 < scope.arity →
      Denotes scope "gaus" (.binary .mul (.param 0) (.gaussian (.var 0) (.param 1) (.param 2)))
  | expo : 0 < scope.arity →
      Denotes scope "expo"
        (.unary .exp (.binary .add (.param 0) (.binary .mul (.param 1) (.var 0))))

theorem Scope.standard_proper (arity : Nat) : (Scope.standard arity).Proper where
  nodup := by simp [standard]
  unreserved := by simp [standard, reservedNames]

theorem Scope.var_ok_iff {scope : Scope} {name : String} {index : Nat} {e : Expr} :
    scope.var name index = .ok e ↔ index < scope.arity ∧ e = .var index := by
  unfold var; split
  · next h => simp [h, eq_comm]
  · next h => simp [h]

/-- **Names that stand alone**, declaratively. -/
theorem resolve_ok_iff {scope : Scope} (hs : scope.Proper) {name : String} {e : Expr} :
    scope.resolve name = .ok e ↔ Denotes scope name e := by
  have hmap : ∀ {f : Expr → Expr}, (scope.var name 0).map f = .ok e ↔
      0 < scope.arity ∧ e = f (.var 0) := by
    intro f
    cases hv : scope.var name 0 with
    | error cause =>
      have hn : ¬ 0 < scope.arity := fun h => by
        rw [Scope.var_ok_iff.2 ⟨h, rfl⟩] at hv; cases hv
      simp [Except.map, hn]
    | ok x =>
      obtain ⟨h, rfl⟩ := Scope.var_ok_iff.1 hv
      simp [Except.map, h, eq_comm]
  have hfree : ∀ {n}, n ∈ reservedNames → scope.names.idxOf? n = none := fun {n} hn =>
    List.idxOf?_eq_none_iff.2 (hs.unreserved n hn)
  unfold Scope.resolve
  cases hi : scope.names.idxOf? name with
  | some index =>
    have hget : scope.names[index]? = some name := by
      obtain ⟨hlt, hname, -⟩ := List.idxOf?_eq_some_iff.1 hi
      rw [List.getElem?_eq_getElem hlt, hname]
    simp only [Scope.var_ok_iff]
    constructor
    · rintro ⟨h, rfl⟩; exact .var hget h
    · intro h
      cases h with
      | @var _ index' hget' h' =>
        have hlt := (List.getElem?_eq_some_iff.1 hget).1
        have heq : index = index' := (List.getElem?_inj hlt hs.nodup).1 (hget.trans hget'.symm)
        subst heq; exact ⟨h', rfl⟩
      | pi => rw [hfree (by simp [reservedNames])] at hi; cases hi
      | tmathPi => rw [hfree (by simp [reservedNames])] at hi; cases hi
      | gaus => rw [hfree (by simp [reservedNames])] at hi; cases hi
      | expo => rw [hfree (by simp [reservedNames])] at hi; cases hi
  | none =>
    have hnone : ∀ index, scope.names[index]? ≠ some name := fun index h =>
      List.idxOf?_eq_none_iff.1 hi (List.mem_of_getElem? h)
    constructor
    · intro h
      dsimp only at h
      split at h
      · next hpi =>
        cases h
        rcases hpi with rfl | rfl
        · exact .pi
        · exact .tmathPi
      split at h
      · next hg => subst hg; obtain ⟨h0, rfl⟩ := hmap.1 h; exact .gaus h0
      split at h
      · next he => subst he; obtain ⟨h0, rfl⟩ := hmap.1 h; exact .expo h0
      · cases h
    · intro h
      cases h with
      | var hget => exact absurd hget (hnone _)
      | pi => rfl
      | tmathPi => rfl
      | gaus h0 => exact hmap.2 ⟨h0, rfl⟩
      | expo h0 => exact hmap.2 ⟨h0, rfl⟩

/-! ## Constructs -/

/-- The kinds of constructs, loosest first. -/
inductive Construct where
  | disjunction
  | conjunction
  | comparison
  | sum
  | product
  | signed
  | power
  | primary
  deriving DecidableEq, Repr

/-- `Joins c s op d`: in a construct of kind `c`, the operator `s` stands for
    `op` and has a construct of kind `d` on its right. -/
inductive Joins : Construct → Symbol → BinaryOp → Construct → Prop
  | or : Joins .disjunction .either .or .conjunction
  | and : Joins .conjunction .both .and .comparison
  | lt : Joins .comparison .less .lt .sum
  | gt : Joins .comparison .greater .gt .sum
  | le : Joins .comparison .atMost .le .sum
  | ge : Joins .comparison .atLeast .ge .sum
  | eq : Joins .comparison .equal .eq .sum
  | ne : Joins .comparison .unequal .ne .sum
  | add : Joins .sum .plus .add .product
  | sub : Joins .sum .minus .sub .product
  | mul : Joins .product .star .mul .signed
  | div : Joins .product .slash .div .signed

/-- `Includes c d`: a construct of kind `d` is one of kind `c` as it stands. -/
inductive Includes : Construct → Construct → Prop
  | conjunction : Includes .disjunction .conjunction
  | comparison : Includes .conjunction .comparison
  | sum : Includes .comparison .sum
  | product : Includes .sum .product
  | signed : Includes .product .signed
  | power : Includes .signed .power
  | primary : Includes .power .primary

/-- The signs, and the operations they stand for; a plus sign leaves no node. -/
inductive Signs : Symbol → (Expr → Expr) → Prop
  | neg : Signs .minus (.unary .neg)
  | plus : Signs .plus id
  | not : Signs .bang (.unary .not)

/-- **The grammar.**  The symbols `ss` are a construct of kind `c` with the tree
    `e`. -/
inductive Derives (scope : Scope) : Construct → List Symbol → Expr → Prop
  | include {c d ss e} : Includes c d → Derives scope d ss e → Derives scope c ss e
  | join {c d s op l r left right} : Joins c s op d → Derives scope c l left →
      Derives scope d r right → Derives scope c (l ++ s :: r) (.binary op left right)
  | sign {s f ss e} : Signs s f → Derives scope .signed ss e → Derives scope .signed (s :: ss) (f e)
  | raise {b x base exponent} : Derives scope .primary b base → Derives scope .signed x exponent →
      Derives scope .power (b ++ .power :: x) (.binary .pow base exponent)
  | number (v) : Derives scope .primary [.number v] (.number v)
  | parameter (i) : Derives scope .primary [.parameter i] (.param i)
  | parens {ss e} : Derives scope .disjunction ss e →
      Derives scope .primary (.openParen :: ss ++ [.closeParen]) e
  | name {name e} : Denotes scope name e → Derives scope .primary [.name name] e
  | call {name e} (args : List (List Symbol × Expr)) : args ≠ [] →
      (∀ arg ∈ args, Derives scope .disjunction arg.1 arg.2) →
      callNamed name (args.map Prod.snd) = .ok e →
      Derives scope .primary
        (.name name :: .openParen :: [.comma].intercalate (args.map Prod.fst) ++ [.closeParen]) e

/-- A signed construct is a disjunction as it stands. -/
theorem Derives.disjunction_of_signed {scope : Scope} {ss : List Symbol} {e : Expr}
    (h : Derives scope .signed ss e) : Derives scope .disjunction ss e :=
  .include .conjunction (.include .comparison (.include .sum (.include .product
    (.include .signed h))))

/-- A primary construct is a signed one as it stands. -/
theorem Derives.signed_of_primary {scope : Scope} {ss : List Symbol} {e : Expr}
    (h : Derives scope .primary ss e) : Derives scope .signed ss e :=
  .include .power (.include .primary h)

/-! ## How constructs begin -/

/-- Whether a symbol begins a primary construct. -/
def Symbol.beginsPrimary : Symbol → Bool
  | number _ | parameter _ | openParen | name _ => true
  | _ => false

/-- Whether a symbol is a sign. -/
def Symbol.isSign : Symbol → Bool
  | minus | plus | bang => true
  | _ => false

theorem exists_signs_of_isSign {s : Symbol} (h : s.isSign = true) : ∃ f, Signs s f := by
  cases s with
  | minus => exact ⟨_, .neg⟩
  | plus => exact ⟨_, .plus⟩
  | bang => exact ⟨_, .not⟩
  | _ => cases h

/-- A construct begins with a sign or as a primary construct does, a power not
    with a sign. -/
theorem Derives.begins {scope : Scope} {c : Construct} {ss : List Symbol} {e : Expr}
    (h : Derives scope c ss e) :
    ∃ s tail, ss = s :: tail ∧
      (s.beginsPrimary ∨ s.isSign ∧ c ≠ .power ∧ c ≠ .primary) := by
  induction h with
  | @«include» c d ss e hc _ ih =>
    obtain ⟨s, tail, rfl, hs⟩ := ih
    refine ⟨s, tail, rfl, hs.imp_right fun ⟨hsign, h₁, h₂⟩ => ⟨hsign, ?_⟩⟩
    cases hc <;> simp_all
  | join hj _ _ ih _ =>
    obtain ⟨s, tail, rfl, hs⟩ := ih
    exact ⟨s, _, rfl, hs⟩
  | @sign s f ss e hs _ _ =>
    refine ⟨s, ss, rfl, Or.inr ⟨?_, by simp, by simp⟩⟩
    cases hs <;> rfl
  | raise _ _ ih _ =>
    obtain ⟨s, tail, rfl, hs⟩ := ih
    exact ⟨s, _, rfl, Or.inl (hs.resolve_right fun h => h.2.2 rfl)⟩
  | number | parameter | parens | name | call => exact ⟨_, _, rfl, Or.inl rfl⟩

end JetEnergy.Formula
