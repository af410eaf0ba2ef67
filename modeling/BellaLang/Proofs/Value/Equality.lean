import BellaLang.Number.Notation
import BellaLang.Proofs.Evaluation.Agreement
import BellaLang.Proofs.Number.Comparing
import BellaLang.Value.Text
import Mathlib.Data.List.Forall2

/-!
Equal values.

Equality is decided at the leaves: by comparing numbers, where a NaN equals a NaN and the two zeros
equal each other, by comparing booleans, and by comparing the identities of functions.  Arrays lift
this, place by place and to any depth.

  1. What a value equals is told by its constructor (`equals_number_iff` to `equals_user_iff`), and
     for an array by its elements, pairwise (`allEqual_iff`).
  2. Equality is symmetric and transitive because it is at the leaves, by induction on the value
     with the elements of an array as smaller values (`Value.inductionOn`).
  3. Whatever is a function of a value is the same for equal values, if it is the same for equal
     leaves and if for an array it hangs on what it is for the elements (`congr_of_equals`).  Truth,
     text and hash are of that kind.

Two functions with one identity are one object, so they are the same in everything else too.  That
is not for equality to know: it is said of the values at hand (`Value.SharesObjects`).

Main statements: `equals_symm`, `equals_trans`, `truthy_of_equals`, `text_of_equals` and
`hashBy_of_equals`.
-/

namespace BellaLang

open Machine Number

/-! ## Induction on values -/

/-- Induction on a value, where the elements of an array are smaller than the array. -/
@[elab_as_elim]
theorem Value.inductionOn {motive : Value → Prop} (number : ∀ x, motive (.number x))
    (boolean : ∀ b, motive (.boolean b))
    (array : ∀ elements, (∀ v ∈ elements, motive v) → motive (.array elements))
    (native : ∀ f, motive (.native f)) (user : ∀ f, motive (.user f)) (v : Value) : motive v := by
  refine @Value.rec (fun _ => True) motive (fun _ => True) (fun vs => ∀ v ∈ vs, motive v)
    (fun _ _ _ _ _ => trivial) number boolean array (fun f _ => native f) user (fun _ => trivial)
    (fun _ _ => trivial) ?_ ?_ v
  · intro v hv
    cases hv
  · intro first rest hfirst hrest v hv
    rcases List.mem_cons.mp hv with rfl | hv
    · exact hfirst
    · exact hrest v hv

/-! ## What a value equals -/

section
variable {v w : Value}

theorem Value.equals_number_iff {x : Float} :
    (Value.number x).equals w = true ↔ ∃ y, w = .number y ∧ same x y = true := by
  cases w <;> simp [Value.equals]

theorem Value.equals_boolean_iff {b : Bool} :
    (Value.boolean b).equals w = true ↔ w = .boolean b := by
  cases w <;> simp [Value.equals, @eq_comm Bool b]

theorem Value.equals_native_iff {f : Native} :
    (Value.native f).equals w = true ↔ ∃ g, w = .native g ∧ f.identity = g.identity := by
  cases w <;> simp [Value.equals]

theorem Value.equals_user_iff {f : UserFunction} :
    (Value.user f).equals w = true ↔ ∃ g, w = .user g ∧ f.identity = g.identity := by
  cases w <;> simp [Value.equals]

/-- Lists of values are equal if they are of one length, and equal at each place. -/
theorem Value.allEqual_iff {vs ws : List Value} :
    Value.allEqual vs ws = true ↔ List.Forall₂ (fun v w => v.equals w = true) vs ws := by
  induction vs generalizing ws with
  | nil => cases ws <;> simp [Value.allEqual]
  | cons v rest ih =>
    cases ws with
    | nil => simp [Value.allEqual]
    | cons w others => rw [Value.allEqual, Bool.and_eq_true, ih, List.forall₂_cons]

theorem Value.equals_array_iff {vs : List Value} :
    (Value.array vs).equals w = true ↔
      ∃ ws, w = .array ws ∧ List.Forall₂ (fun v w => v.equals w = true) vs ws := by
  cases w <;> simp [Value.equals, Value.allEqual_iff]

end

/-! ## Equality is an equivalence -/

theorem Value.equals_symm {v w : Value} (h : v.equals w = true) : w.equals v = true := by
  induction v using Value.inductionOn generalizing w with
  | number x =>
    obtain ⟨y, rfl, hxy⟩ := equals_number_iff.mp h
    exact equals_number_iff.mpr ⟨x, rfl, same_symm hxy⟩
  | boolean b =>
    obtain rfl := equals_boolean_iff.mp h
    exact h
  | array vs ih =>
    obtain ⟨ws, rfl, hall⟩ := equals_array_iff.mp h
    refine equals_array_iff.mpr ⟨vs, rfl, List.Forall₂.flip ?_⟩
    refine List.Forall₂.imp ?_ ((List.forall₂_and_left vs ws).mpr ⟨ih, hall⟩)
    rintro x y ⟨hsymm, hxy⟩
    exact hsymm hxy
  | native f =>
    obtain ⟨g, rfl, hfg⟩ := equals_native_iff.mp h
    exact equals_native_iff.mpr ⟨f, rfl, hfg.symm⟩
  | user f =>
    obtain ⟨g, rfl, hfg⟩ := equals_user_iff.mp h
    exact equals_user_iff.mpr ⟨f, rfl, hfg.symm⟩

/-- Pairwise equal lists, where equality is transitive from the elements of the first one on. -/
theorem Value.forall₂_equals_trans {us vs ws : List Value}
    (htrans : ∀ u ∈ us, ∀ v w : Value, u.equals v = true → v.equals w = true → u.equals w = true)
    (huv : List.Forall₂ (fun v w => v.equals w = true) us vs)
    (hvw : List.Forall₂ (fun v w => v.equals w = true) vs ws) :
    List.Forall₂ (fun v w => v.equals w = true) us ws := by
  induction huv generalizing ws with
  | nil => exact hvw
  | @cons u v us vs hfirst hrest ih =>
    cases hvw with
    | cons hsecond hothers =>
      constructor
      · exact htrans u List.mem_cons_self v _ hfirst hsecond
      · exact ih (fun u hu => htrans u (List.mem_cons_of_mem _ hu)) hothers

theorem Value.equals_trans {u v w : Value} (huv : u.equals v = true) (hvw : v.equals w = true) :
    u.equals w = true := by
  induction u using Value.inductionOn generalizing v w with
  | number x =>
    obtain ⟨y, rfl, hxy⟩ := equals_number_iff.mp huv
    obtain ⟨z, rfl, hyz⟩ := equals_number_iff.mp hvw
    exact equals_number_iff.mpr ⟨z, rfl, same_trans hxy hyz⟩
  | boolean b =>
    obtain rfl := equals_boolean_iff.mp huv
    exact hvw
  | array us ih =>
    obtain ⟨vs, rfl, hall⟩ := equals_array_iff.mp huv
    obtain ⟨ws, rfl, hothers⟩ := equals_array_iff.mp hvw
    refine equals_array_iff.mpr ⟨ws, rfl, forall₂_equals_trans ?_ hall hothers⟩
    intro u hu v w huv hvw
    exact ih u hu huv hvw
  | native f =>
    obtain ⟨g, rfl, hfg⟩ := equals_native_iff.mp huv
    obtain ⟨h, rfl, hgh⟩ := equals_native_iff.mp hvw
    exact equals_native_iff.mpr ⟨h, rfl, hfg.trans hgh⟩
  | user f =>
    obtain ⟨g, rfl, hfg⟩ := equals_user_iff.mp huv
    obtain ⟨h, rfl, hgh⟩ := equals_user_iff.mp hvw
    exact equals_user_iff.mpr ⟨h, rfl, hfg.trans hgh⟩

/-- Equal values are of one kind. -/
theorem Value.kind_of_equals {v w : Value} (h : v.equals w = true) : v.kind = w.kind := by
  cases v with
  | number x =>
    obtain ⟨y, rfl, -⟩ := equals_number_iff.mp h
    rfl
  | boolean b =>
    obtain rfl := equals_boolean_iff.mp h
    rfl
  | array vs =>
    obtain ⟨ws, rfl, -⟩ := equals_array_iff.mp h
    rfl
  | native f =>
    obtain ⟨g, rfl, -⟩ := equals_native_iff.mp h
    rfl
  | user f =>
    obtain ⟨g, rfl, -⟩ := equals_user_iff.mp h
    rfl

/-! ## Objects -/

/-- Two values share their objects if a function that appears in the one, and one that appears in
    the other, are the same function as soon as they have the same identity. -/
structure Value.SharesObjects (v w : Value) : Prop where
  natives : ∀ f g, (Value.native f).AppearsIn v → (Value.native g).AppearsIn w →
    f.identity = g.identity → f = g
  users : ∀ f g, (Value.user f).AppearsIn v → (Value.user g).AppearsIn w →
    f.identity = g.identity → f = g

namespace Value.SharesObjects

variable {v w : Value}

/-- A function that appears in the one equals only itself in the other. -/
theorem eq_of_equals (h : v.SharesObjects w) {f g : Value} (hf : f.AppearsIn v)
    (hg : g.AppearsIn w) (hfunction : f.kind = .function) (hequals : f.equals g = true) :
    f = g := by
  cases f with
  | native f =>
    obtain ⟨g, rfl, hidentity⟩ := equals_native_iff.mp hequals
    rw [h.natives f g hf hg hidentity]
  | user f =>
    obtain ⟨g, rfl, hidentity⟩ := equals_user_iff.mp hequals
    rw [h.users f g hf hg hidentity]
  | number x => cases hfunction
  | boolean b => cases hfunction
  | array vs => cases hfunction

end Value.SharesObjects

/-! ## What equal values have in common -/

/-- Lists that are pairwise equal under a function are equal under it as a whole. -/
theorem Value.map_eq_of_forall₂ {α : Type} {f : Value → α} {vs ws : List Value}
    (h : List.Forall₂ (fun v w => f v = f w) vs ws) : vs.map f = ws.map f := by
  have hmaps : List.Forall₂ (· = ·) (vs.map f) (ws.map f) := by
    rw [List.forall₂_map_left_iff, List.forall₂_map_right_iff]
    exact h
  rwa [List.forall₂_eq_eq_eq] at hmaps

/-- What is the same for equal numbers and for functions that are equal, and hangs for an array on
    what it is for the elements, is the same for equal values. -/
theorem Value.congr_of_equals {α : Type} {f : Value → α} {v w : Value}
    (hnumber : ∀ x y, same x y = true → f (.number x) = f (.number y))
    (harray : ∀ vs ws : List Value, vs.map f = ws.map f → f (.array vs) = f (.array ws))
    (hfunction : ∀ g h : Value, g.kind = .function → g.AppearsIn v → h.AppearsIn w →
      g.equals h = true → f g = f h)
    (hequals : v.equals w = true) : f v = f w := by
  induction v using Value.inductionOn generalizing w with
  | number x =>
    obtain ⟨y, rfl, hxy⟩ := equals_number_iff.mp hequals
    exact hnumber x y hxy
  | boolean b =>
    obtain rfl := equals_boolean_iff.mp hequals
    rfl
  | array vs ih =>
    obtain ⟨ws, rfl, hall⟩ := equals_array_iff.mp hequals
    refine harray vs ws (map_eq_of_forall₂ ?_)
    rw [List.forall₂_iff_get] at hall ⊢
    obtain ⟨hlength, hall⟩ := hall
    refine ⟨hlength, fun i hi hi' => ?_⟩
    refine ih _ (List.get_mem vs ⟨i, hi⟩) ?_ (hall i hi hi')
    intro g h hkind hg hh
    exact hfunction g h hkind (.element (List.get_mem vs ⟨i, hi⟩) hg)
      (.element (List.get_mem ws ⟨i, hi'⟩) hh)
  | native g => exact hfunction _ _ rfl .self .self hequals
  | user g => exact hfunction _ _ rfl .self .self hequals

/-- A function is no condition that fails. -/
theorem Value.truthy_of_function {v : Value} (h : v.kind = .function) : v.truthy = true := by
  cases v with
  | native f => rfl
  | user f => rfl
  | number x => cases h
  | boolean b => cases h
  | array vs => cases h

/-- Neither zero is a NaN. -/
theorem Number.isNaN_of_zero {x : Float} (h : (x == 0) = true) : x.isNaN = false := by
  obtain ⟨s, hs⟩ := zero_iff.mp h
  show x.toModel.unpack.isNaN = false
  rw [hs]
  rfl

/-- Equal values behave alike as conditions. -/
theorem Value.truthy_of_equals {v w : Value} (h : v.equals w = true) : v.truthy = w.truthy := by
  refine congr_of_equals ?_ ?_ ?_ h
  · intro x y hxy
    refine @congr_of_same Bool isTruthy false ?_ x y hxy
    intro z hz
    rw [isTruthy, hz]
    rfl
  · intro vs ws _
    rfl
  · intro f g hf _ _ hfg
    rw [truthy_of_function hf, truthy_of_function ((kind_of_equals hfg).symm.trans hf)]

theorem Value.texts_eq_map (vs : List Value) : Value.texts vs = vs.map Value.text := by
  induction vs with
  | nil => rfl
  | cons v rest ih => rw [Value.texts, ih, List.map_cons]

/-- Equal values that share their objects have the same text. -/
theorem Value.text_of_equals {v w : Value} (hobjects : v.SharesObjects w)
    (h : v.equals w = true) : v.text = w.text := by
  refine congr_of_equals ?_ ?_ ?_ h
  · intro x y hxy
    refine @congr_of_same String canonicalText "0" ?_ x y hxy
    intro z hz
    rw [canonicalText, Notation.write, isNaN_of_zero hz, if_neg Bool.false_ne_true, if_pos hz]
    rfl
  · intro vs ws hmap
    rw [Value.text, Value.text, texts_eq_map, texts_eq_map, hmap]
  · intro f g hkind hf hg hfg
    rw [hobjects.eq_of_equals hf hg hkind hfg]

/-! ## Hashing -/

/-- How a host hashes what values are made of. -/
structure Hashing where
  number : Float → UInt64
  boolean : Bool → UInt64
  sequence : List UInt64 → UInt64
  native : (identity : Nat) → UInt64
  user : (identity : Nat) → UInt64

/-- Doubles that compare equal have one hash. -/
def Hashing.RespectsDoubles (hashing : Hashing) : Prop :=
  ∀ x y : Float, (x == y) = true → hashing.number x = hashing.number y

mutual

/-- The hash of a value, from what the host hashes; every NaN is hashed as one. -/
def Value.hashBy (hashing : Hashing) : Value → UInt64
  | .number x => hashing.number (if x.isNaN then nan else x)
  | .boolean b => hashing.boolean b
  | .array elements => hashing.sequence (Value.hashesBy hashing elements)
  | .native f => hashing.native f.identity
  | .user f => hashing.user f.identity

/-- The hashes of several values. -/
def Value.hashesBy (hashing : Hashing) : List Value → List UInt64
  | [] => []
  | v :: rest => v.hashBy hashing :: Value.hashesBy hashing rest

end

theorem Value.hashesBy_eq_map (hashing : Hashing) (vs : List Value) :
    Value.hashesBy hashing vs = vs.map (Value.hashBy hashing) := by
  induction vs with
  | nil => rfl
  | cons v rest ih => rw [Value.hashesBy, ih, List.map_cons]

/-- Equal values have the same hash, on any host on which equal doubles have. -/
theorem Value.hashBy_of_equals {hashing : Hashing} (hhashing : hashing.RespectsDoubles)
    {v w : Value} (h : v.equals w = true) : v.hashBy hashing = w.hashBy hashing := by
  refine congr_of_equals ?_ ?_ ?_ h
  · intro x y hxy
    rw [Value.hashBy, Value.hashBy]
    rcases (same_iff x y).mp hxy with rfl | ⟨hx, hy⟩
    · rfl
    · rw [isNaN_of_zero hx, isNaN_of_zero hy]
      exact hhashing x y ((beq_iff x y).mpr (.inr ⟨hx, hy⟩))
  · intro vs ws hmap
    rw [Value.hashBy, Value.hashBy, hashesBy_eq_map, hashesBy_eq_map, hmap]
  · intro f g hkind _ _ hfg
    cases f with
    | native f =>
      obtain ⟨g, rfl, hidentity⟩ := equals_native_iff.mp hfg
      rw [Value.hashBy, Value.hashBy, hidentity]
    | user f =>
      obtain ⟨g, rfl, hidentity⟩ := equals_user_iff.mp hfg
      rw [Value.hashBy, Value.hashBy, hidentity]
    | number x => cases hkind
    | boolean b => cases hkind
    | array vs => cases hkind

/-- The hashing that values have here. -/
def Hashing.standard : Hashing where
  number := fun x => mixHash 1 (Number.hash x)
  boolean := fun b => mixHash 2 (Hashable.hash b)
  sequence := fun hashes => mixHash 3 (hashes.foldr mixHash 0)
  native := fun identity => mixHash 4 (Hashable.hash identity)
  user := fun identity => mixHash 5 (Hashable.hash identity)

theorem Hashing.standard_respectsDoubles : Hashing.standard.RespectsDoubles := by
  intro x y h
  refine congrArg (mixHash 1) ?_
  rcases (beq_iff x y).mp h with ⟨rfl, -⟩ | ⟨hx, hy⟩
  · rfl
  · rw [Number.hash, Number.hash, isNaN_of_zero hx, isNaN_of_zero hy, if_neg Bool.false_ne_true,
      if_pos hx, if_neg Bool.false_ne_true, if_pos hy]

mutual

theorem Value.hash_eq_hashBy : ∀ v : Value, v.hash = v.hashBy .standard
  | .number x => by
    rw [Value.hash, Value.hashBy]
    cases hnan : x.isNaN with
    | true =>
      have hother : nan.isNaN = true := by decide +kernel
      refine congrArg (mixHash 1) ?_
      rw [if_pos rfl, Number.hash, Number.hash, if_pos hnan, if_pos hother]
    | false => rfl
  | .boolean _ | .native _ | .user _ => rfl
  | .array elements => by
    rw [Value.hash, Value.hashBy, Value.hashAll_eq_foldr elements]
    rfl

theorem Value.hashAll_eq_foldr : ∀ vs : List Value,
    Value.hashAll vs = (Value.hashesBy .standard vs).foldr mixHash 0
  | [] => rfl
  | v :: rest => by
    rw [Value.hashAll, Value.hashesBy, List.foldr_cons, Value.hash_eq_hashBy v,
      Value.hashAll_eq_foldr rest]

end

/-! ## The operators -/

instance : LawfulMonad Action := by
  refine LawfulMonad.mk' Action ?_ ?_ ?_
  · intro α a
    funext m
    show Action.bind a Action.pure m = a m
    unfold Action.bind
    rcases a m with ⟨_ | _, _⟩ <;> rfl
  · intro α β x next
    rfl
  · intro α β γ a next last
    funext m
    show Action.bind (Action.bind a next) last m = Action.bind a (fun x => (next x).bind last) m
    unfold Action.bind
    rcases a m with ⟨_ | _, _⟩ <;> rfl

/-- The comparison with `==` asks whether the values of its operands are equal. -/
theorem Expr.evalWith_equal (call : Calling) (site : Site) (left right : Expr) :
    (Expr.binary site "==" left right).evalWith call =
      (do
        let v ← left.evalWith call
        let w ← right.evalWith call
        pure (.boolean (v.sharedEquals w))) := by
  have hop : BinaryOp.ofSymbol? "==" = some (.equality true) := rfl
  rw [Expr.evalWith, hop]
  simp only [beq_true]

/-- The comparison with `!=` is the opposite of the one with `==`. -/
theorem Expr.evalWith_differ (call : Calling) (site inner : Site) (left right : Expr) :
    (Expr.binary site "!=" left right).evalWith call =
      (Expr.unary site "!" (.binary inner "==" left right)).evalWith call := by
  have hbinary : BinaryOp.ofSymbol? "!=" = some (.equality false) := rfl
  have hunary : UnaryOp.ofSymbol? "!" = some .not := rfl
  have hleft : (Expr.binary site "!=" left right).evalWith call =
      (do
        let v ← left.evalWith call
        let w ← right.evalWith call
        pure (.boolean (v.sharedEquals w == false))) := by
    rw [Expr.evalWith, hbinary]
  have hright : (Expr.unary site "!" (.binary inner "==" left right)).evalWith call =
      (do
        let v ← (Expr.binary inner "==" left right).evalWith call
        pure (.boolean !v.truthy)) := by
    rw [Expr.evalWith, hunary]
  rw [hleft, hright, evalWith_equal]
  simp only [bind_assoc, pure_bind, beq_false, Value.truthy]

end BellaLang
