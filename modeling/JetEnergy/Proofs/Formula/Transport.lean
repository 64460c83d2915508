import Mathlib.Data.List.Chain
import Mathlib.Data.List.Forall2
import JetEnergy.Proofs.Formula.Grammar
import JetEnergy.Proofs.Lists
import JetEnergy.Proofs.Text.Splitting

/-!
  What all derivations have in common.

  * `Derives.carry`: a derivation carries over to other symbols and other
    trees.  The relations between them need to fit together at the names,
    numbers and parameters only: `Carries`.
  * `Derives.apart`: two operands never stand side by side.
  * `Derives.name_known`: every name is one of `knownNames`.
-/
namespace JetEnergy.Formula

/-! ## Carrying derivations over -/

/-- A relation of trees that every operation respects. -/
structure Respects (T : Expr → Expr → Prop) : Prop where
  unary {op a a'} : T a a' → T (.unary op a) (.unary op a')
  binary {op a a' b b'} : T a a' → T b b' → T (.binary op a b) (.binary op a' b')
  gaussian {x x' m m' s s'} : T x x' → T m m' → T s s' → T (.gaussian x m s) (.gaussian x' m' s')
  gaussianNorm {x x' m m' s s' n n'} : T x x' → T m m' → T s s' → T n n' →
    T (.gaussianNorm x m s n) (.gaussianNorm x' m' s' n')

theorem Respects.flip {T : Expr → Expr → Prop} (hT : Respects T) :
    Respects fun e' e => T e e' where
  unary ha := hT.unary ha
  binary ha hb := hT.binary ha hb
  gaussian hx hm hs := hT.gaussian hx hm hs
  gaussianNorm hx hm hs hn := hT.gaussianNorm hx hm hs hn

theorem Respects.signs {T : Expr → Expr → Prop} (hT : Respects T) {s : Symbol} {f : Expr → Expr}
    (h : Signs s f) {e e' : Expr} (he : T e e') : T (f e) (f e') := by
  cases h with
  | neg => exact hT.unary he
  | plus => exact he
  | not => exact hT.unary he

theorem Respects.call {T : Expr → Expr → Prop} (hT : Respects T) {f : Function}
    {args args' : List Expr} (hargs : List.Forall₂ T args args') {e : Expr}
    (h : f.call args = .ok e) : ∃ e', f.call args' = .ok e' ∧ T e e' := by
  unfold Function.call at h
  split at h
  · obtain _ | ⟨ha, _ | _⟩ := hargs
    cases h; exact ⟨_, rfl, hT.unary ha⟩
  · cases h
  · obtain _ | ⟨ha, _ | ⟨hb, _ | _⟩⟩ := hargs
    cases h; exact ⟨_, rfl, hT.binary ha hb⟩
  · cases h
  · obtain _ | ⟨hx, _ | ⟨hm, _ | ⟨hs, _ | _⟩⟩⟩ := hargs
    cases h; exact ⟨_, rfl, hT.gaussian hx hm hs⟩
  · obtain _ | ⟨hx, _ | ⟨hm, _ | ⟨hs, _ | ⟨hn, _ | _⟩⟩⟩⟩ := hargs
    cases h; exact ⟨_, rfl, hT.gaussianNorm hx hm hs hn⟩
  · cases h

theorem callNamed_ok_iff {name : String} {args : List Expr} {e : Expr} :
    callNamed name args = .ok e ↔ ∃ f, Function.ofName? name = some f ∧ f.call args = .ok e := by
  unfold callNamed
  cases Function.ofName? name with
  | none => simp
  | some f => cases hc : f.call args <;> simp [hc]

/-- Whether a symbol is an operand of its own. -/
def Symbol.isOperand : Symbol → Bool
  | number _ | parameter _ | name _ => true
  | _ => false

/-- A relation `R` of symbols and a relation `T` of trees that fit together:
    operands derive related trees in both scopes, and everything else is the
    same. -/
structure Carries (scope scope' : Scope) (R : Symbol → Symbol → Prop) (T : Expr → Expr → Prop) :
    Prop extends Respects T where
  primary {s s' e} : R s s' → Derives scope .primary [s] e →
    ∃ e', Derives scope' .primary [s'] e' ∧ T e e'
  fixed {s s'} : R s s' → s.isOperand = false → s' = s
  called {name s'} : R (.name name) s' → (Function.ofName? name).isSome → s' = .name name

section
variable {scope scope' : Scope} {R : Symbol → Symbol → Prop} {T : Expr → Expr → Prop}

/-- A symbol that is no operand stays where it is. -/
theorem Carries.exists_around (h : Carries scope scope' R T) {s : Symbol}
    (hs : s.isOperand = false) {l r ss : List Symbol} (hss : List.Forall₂ R (l ++ s :: r) ss) :
    ∃ l' r', ss = l' ++ s :: r' ∧ List.Forall₂ R l l' ∧ List.Forall₂ R r r' := by
  obtain ⟨l', tail, rfl, hl, htail⟩ := exists_append_of_forall₂ hss
  obtain ⟨s', r', hR, hr, rfl⟩ := List.forall₂_cons_left_iff.1 htail
  exact ⟨l', r', by rw [h.fixed hR hs], hl, hr⟩

/-- The arguments of a call carry over one by one. -/
theorem Carries.exists_arguments (h : Carries scope scope' R T)
    {args : List (List Symbol × Expr)} (hne : args ≠ [])
    (hargs : ∀ arg ∈ args, ∀ ss, List.Forall₂ R arg.1 ss →
      ∃ e, Derives scope' .disjunction ss e ∧ T arg.2 e)
    {ss : List Symbol} (hss : List.Forall₂ R ([.comma].intercalate (args.map Prod.fst)) ss) :
    ∃ args' : List (List Symbol × Expr), args' ≠ [] ∧
      ss = [.comma].intercalate (args'.map Prod.fst) ∧
      (∀ arg ∈ args', Derives scope' .disjunction arg.1 arg.2) ∧
      List.Forall₂ T (args.map Prod.snd) (args'.map Prod.snd) := by
  induction args generalizing ss with
  | nil => exact absurd rfl hne
  | cons arg args ih =>
    have harg := hargs arg (List.mem_cons_self ..)
    cases args with
    | nil =>
      obtain ⟨e, hd, hT⟩ := harg ss (by simpa using hss)
      exact ⟨[(ss, e)], by simp, by simp, by simpa using hd, .cons hT .nil⟩
    | cons arg' args =>
      rw [List.map_cons, List.map_cons, List.intercalate_cons_cons, List.append_assoc,
        List.singleton_append] at hss
      obtain ⟨l, r, rfl, hl, hr⟩ := h.exists_around rfl hss
      obtain ⟨e, hd, hT⟩ := harg l hl
      obtain ⟨more, hmore, rfl, hds, hTs⟩ := ih (by simp)
        (fun a ha => hargs a (List.mem_cons_of_mem _ ha)) (by rw [List.map_cons]; exact hr)
      refine ⟨(l, e) :: more, by simp, ?_, ?_, .cons hT hTs⟩
      · rw [List.map_cons, List.intercalate_cons_of_ne_nil (by simpa using hmore),
          List.append_assoc, List.singleton_append]
      · intro a ha
        rcases List.mem_cons.1 ha with rfl | ha
        · exact hd
        · exact hds a ha

/-- **Derivations carry over** along relations of symbols and trees that fit
    together. -/
theorem Derives.carry (h : Carries scope scope' R T) {c : Construct} {ss : List Symbol} {e : Expr}
    (hd : Derives scope c ss e) {ss' : List Symbol} (hss : List.Forall₂ R ss ss') :
    ∃ e', Derives scope' c ss' e' ∧ T e e' := by
  induction hd generalizing ss' with
  | «include» hc _ ih =>
    obtain ⟨e', hd, hT⟩ := ih hss
    exact ⟨e', .include hc hd, hT⟩
  | join hj _ _ ihl ihr =>
    obtain ⟨l', r', rfl, hl, hr⟩ := h.exists_around (by cases hj <;> rfl) hss
    obtain ⟨a, hda, hTa⟩ := ihl hl
    obtain ⟨b, hdb, hTb⟩ := ihr hr
    exact ⟨_, .join hj hda hdb, h.binary hTa hTb⟩
  | sign hs _ ih =>
    obtain ⟨s', tail, hR, htail, rfl⟩ := List.forall₂_cons_left_iff.1 hss
    obtain ⟨a, hd, hT⟩ := ih htail
    rw [h.fixed hR (by cases hs <;> rfl)]
    exact ⟨_, .sign hs hd, h.signs hs hT⟩
  | raise _ _ ihb ihx =>
    obtain ⟨b', x', rfl, hb, hx⟩ := h.exists_around rfl hss
    obtain ⟨base, hdb, hTb⟩ := ihb hb
    obtain ⟨exponent, hdx, hTx⟩ := ihx hx
    exact ⟨_, .raise hdb hdx, h.binary hTb hTx⟩
  | number v =>
    obtain ⟨s', tail, hR, htail, rfl⟩ := List.forall₂_cons_left_iff.1 hss
    cases htail
    exact h.primary hR (.number v)
  | parameter i =>
    obtain ⟨s', tail, hR, htail, rfl⟩ := List.forall₂_cons_left_iff.1 hss
    cases htail
    exact h.primary hR (.parameter i)
  | parens _ ih =>
    rw [List.cons_append] at hss
    obtain ⟨s', tail, hR, htail, rfl⟩ := List.forall₂_cons_left_iff.1 hss
    obtain ⟨inner, last, rfl, hinner, hlast⟩ := h.exists_around rfl htail
    cases hlast
    obtain ⟨a, hd, hT⟩ := ih hinner
    rw [h.fixed hR rfl]
    exact ⟨a, .parens hd, hT⟩
  | name hn =>
    obtain ⟨s', tail, hR, htail, rfl⟩ := List.forall₂_cons_left_iff.1 hss
    cases htail
    exact h.primary hR (.name hn)
  | call args hne _ hcall ih =>
    obtain ⟨f, hf, hcall⟩ := callNamed_ok_iff.1 hcall
    -- the name of a function and the brackets are kept, only the arguments change
    rw [List.cons_append, List.cons_append] at hss
    obtain ⟨s', tail, hR, htail, rfl⟩ := List.forall₂_cons_left_iff.1 hss
    obtain ⟨u, rest, hu, hrest, rfl⟩ := List.forall₂_cons_left_iff.1 htail
    obtain ⟨inner, last, rfl, hinner, hlast⟩ := h.exists_around rfl hrest
    cases hlast
    obtain ⟨args', hne', rfl, hds, hTs⟩ :=
      h.exists_arguments hne (fun arg harg ss hss => ih arg harg hss) hinner
    obtain ⟨e', hcall', hT⟩ := h.call hTs hcall
    rw [h.called hR (by rw [hf]; rfl), h.fixed hu rfl]
    exact ⟨e', .call args' hne' hds (callNamed_ok_iff.2 ⟨f, hf, hcall'⟩), hT⟩

end

/-! ## Operands stand apart -/

/-- No two operands stand side by side. -/
abbrev Apart (ss : List Symbol) : Prop :=
  ss.IsChain fun a b => ¬ (a.isOperand ∧ b.isOperand)

/-- A symbol that is no operand may stand between any two lists. -/
theorem apart_around {s : Symbol} (hs : s.isOperand = false) {l r : List Symbol} (hl : Apart l)
    (hr : Apart r) : Apart (l ++ s :: r) := by
  refine hl.append (hr.cons fun b _ => by simp [hs]) fun a _ b hb => ?_
  obtain rfl : s = b := by simpa using hb
  simp [hs]

theorem apart_arguments {args : List (List Symbol × Expr)} (h : ∀ arg ∈ args, Apart arg.1) :
    Apart ([.comma].intercalate (args.map Prod.fst)) := by
  induction args with
  | nil => exact .nil
  | cons arg args ih =>
    have harg := h arg (List.mem_cons_self ..)
    cases args with
    | nil => simpa using harg
    | cons arg' args =>
      rw [List.map_cons, List.map_cons, List.intercalate_cons_cons, List.append_assoc,
        List.singleton_append]
      exact apart_around rfl harg (ih fun a ha => h a (List.mem_cons_of_mem _ ha))

theorem Derives.apart {scope : Scope} {c : Construct} {ss : List Symbol} {e : Expr}
    (h : Derives scope c ss e) : Apart ss := by
  induction h with
  | «include» _ _ ih => exact ih
  | join hj _ _ ihl ihr => exact apart_around (by cases hj <;> rfl) ihl ihr
  | @sign s _ _ _ hs _ ih => exact apart_around (l := []) (by cases hs <;> rfl) .nil ih
  | raise _ _ ihb ihx => exact apart_around rfl ihb ihx
  | number v => exact .singleton _
  | parameter i => exact .singleton _
  | parens _ ih =>
    exact apart_around rfl (apart_around (l := []) rfl .nil ih) .nil
  | name _ => exact .singleton _
  | call args _ _ _ ih =>
    exact apart_around rfl (apart_around (l := [_]) rfl (.singleton _) (apart_arguments ih)) .nil

/-! ## Known names -/

/-- The names that mean something in a scope. -/
def knownNames (scope : Scope) : List String :=
  scope.names ++ reservedNames ++ Function.table.map Prod.fst

theorem mem_knownNames_of_ofName? {scope : Scope} {name : String}
    (h : (Function.ofName? name).isSome) : name ∈ knownNames scope := by
  obtain ⟨⟨name', f⟩, hmem, hname⟩ := List.lookup_isSome_iff.1 h
  obtain rfl : name = name' := eq_of_beq hname
  exact List.mem_append_right _ (List.mem_map_of_mem hmem)

theorem Denotes.mem_knownNames {scope : Scope} {name : String} {e : Expr}
    (h : Denotes scope name e) : name ∈ knownNames scope := by
  refine List.mem_append_left _ ?_
  cases h with
  | var hget _ => exact List.mem_append_left _ (List.mem_of_getElem? hget)
  | pi | tmathPi | gaus | expo => exact List.mem_append_right _ (by simp [reservedNames])

theorem Derives.name_known {scope : Scope} {c : Construct} {ss : List Symbol} {e : Expr}
    (h : Derives scope c ss e) {name : String} (hname : .name name ∈ ss) :
    name ∈ knownNames scope := by
  induction h with
  | «include» _ _ ih => exact ih hname
  | join hj _ _ ihl ihr =>
    rcases List.mem_append.1 hname with hl | hr
    · exact ihl hl
    · cases hr with
      | head => cases hj
      | tail _ hr => exact ihr hr
  | sign hs _ ih =>
    cases hname with
    | head => cases hs
    | tail _ hname => exact ih hname
  | raise _ _ ihb ihx =>
    rcases List.mem_append.1 hname with hb | hx
    · exact ihb hb
    · exact ihx (by simpa using hx)
  | number | parameter => simp at hname
  | parens _ ih => exact ih (by simpa using hname)
  | name hn =>
    obtain rfl : name = _ := by simpa using hname
    exact hn.mem_knownNames
  | call args _ _ hcall ih =>
    obtain ⟨f, hf, -⟩ := callNamed_ok_iff.1 hcall
    rw [List.cons_append, List.cons_append, List.mem_cons, List.mem_cons, List.mem_append] at hname
    rcases hname with hname | hname | hname | hname
    · cases hname
      exact mem_knownNames_of_ofName? (by rw [hf]; rfl)
    · cases hname
    · rcases mem_intercalate hname with hcomma | ⟨ss, hss, hname⟩
      · cases hcomma
      · obtain ⟨arg, harg, rfl⟩ := List.mem_map.1 hss
        exact ih arg harg hname
    · simp at hname

end JetEnergy.Formula
