import BellaLang.Grammar.Program

/-!
Deciding what a text is read as.

Whether two trees are the same, sites included, is decided constructor by constructor
(`Expr.beq_iff`).  So it can be decided by evaluation whether a text is read as a certain program,
or refused for a certain fault.
-/

namespace BellaLang

/-! ## Trees -/

mutual

/-- Are two expressions the same, sites included? -/
def Expr.beq : Expr → Expr → Bool
  | .numeral site x, .numeral site' x' => site = site' && x = x'
  | .boolean site b, .boolean site' b' => site = site' && b = b'
  | .name id, .name id' => id = id'
  | .unary site op e, .unary site' op' e' => site = site' && op = op' && e.beq e'
  | .binary site op left right, .binary site' op' left' right' =>
    site = site' && op = op' && left.beq left' && right.beq right'
  | .call site callee args, .call site' callee' args' =>
    site = site' && callee = callee' && Expr.beqAll args args'
  | .conditional site test yes no, .conditional site' test' yes' no' =>
    site = site' && test.beq test' && yes.beq yes' && no.beq no'
  | .array site es, .array site' es' => site = site' && Expr.beqAll es es'
  | .subscript site base index, .subscript site' base' index' =>
    site = site' && base.beq base' && index.beq index'
  | .nothing, .nothing => true
  | .statement s, .statement s' => s.beq s'
  | .program body, .program body' => body.beq body'
  | _, _ => false

def Expr.beqAll : List Expr → List Expr → Bool
  | [], [] => true
  | e :: es, e' :: es' => e.beq e' && Expr.beqAll es es'
  | _, _ => false

def Stmt.beq : Stmt → Stmt → Bool
  | .declaration site id e, .declaration site' id' e' => site = site' && id = id' && e.beq e'
  | .assignment site id e, .assignment site' id' e' => site = site' && id = id' && e.beq e'
  | .function site id params e, .function site' id' params' e' =>
    site = site' && id = id' && params = params' && e.beq e'
  | .print site e, .print site' e' => site = site' && e.beq e'
  | .block body, .block body' => body.beq body'
  | .loop site test body, .loop site' test' body' =>
    site = site' && test.beq test' && body.beq body'
  | _, _ => false

def Stmt.beqAll : List Stmt → List Stmt → Bool
  | [], [] => true
  | s :: ss, s' :: ss' => s.beq s' && Stmt.beqAll ss ss'
  | _, _ => false

def Block.beq : Block → Block → Bool
  | .mk site ss, .mk site' ss' => site = site' && Stmt.beqAll ss ss'

end

mutual

theorem Expr.beq_iff : ∀ e e' : Expr, e.beq e' = true ↔ e = e'
  | .numeral .., e' | .boolean .., e' | .name _, e' | .nothing, e' => by
    cases e' <;> simp [Expr.beq]
  | .unary _ _ e, e' => by cases e' <;> simp [Expr.beq, Expr.beq_iff e, and_assoc]
  | .binary _ _ left right, e' => by
    cases e' <;> simp [Expr.beq, Expr.beq_iff left, Expr.beq_iff right, and_assoc]
  | .call _ _ args, e' => by cases e' <;> simp [Expr.beq, Expr.beqAll_iff args, and_assoc]
  | .conditional _ test yes no, e' => by
    cases e' <;> simp [Expr.beq, Expr.beq_iff test, Expr.beq_iff yes, Expr.beq_iff no, and_assoc]
  | .array _ es, e' => by cases e' <;> simp [Expr.beq, Expr.beqAll_iff es]
  | .subscript _ base index, e' => by
    cases e' <;> simp [Expr.beq, Expr.beq_iff base, Expr.beq_iff index, and_assoc]
  | .statement s, e' => by cases e' <;> simp [Expr.beq, Stmt.beq_iff s]
  | .program body, e' => by cases e' <;> simp [Expr.beq, Block.beq_iff body]

theorem Expr.beqAll_iff : ∀ es es' : List Expr, Expr.beqAll es es' = true ↔ es = es'
  | [], es' => by cases es' <;> simp [Expr.beqAll]
  | e :: es, es' => by cases es' <;> simp [Expr.beqAll, Expr.beq_iff e, Expr.beqAll_iff es]

theorem Stmt.beq_iff : ∀ s s' : Stmt, s.beq s' = true ↔ s = s'
  | .declaration _ _ e, s' | .assignment _ _ e, s' | .function _ _ _ e, s' | .print _ e, s' => by
    cases s' <;> simp [Stmt.beq, Expr.beq_iff e, and_assoc]
  | .block body, s' => by cases s' <;> simp [Stmt.beq, Block.beq_iff body]
  | .loop _ test body, s' => by
    cases s' <;> simp [Stmt.beq, Expr.beq_iff test, Block.beq_iff body, and_assoc]

theorem Stmt.beqAll_iff : ∀ ss ss' : List Stmt, Stmt.beqAll ss ss' = true ↔ ss = ss'
  | [], ss' => by cases ss' <;> simp [Stmt.beqAll]
  | s :: ss, ss' => by cases ss' <;> simp [Stmt.beqAll, Stmt.beq_iff s, Stmt.beqAll_iff ss]

theorem Block.beq_iff : ∀ body body' : Block, body.beq body' = true ↔ body = body'
  | .mk _ ss, .mk _ ss' => by simp [Block.beq, Stmt.beqAll_iff ss]

end

instance : DecidableEq Block := fun body body' => decidable_of_iff _ (body.beq_iff body')

/-! ## Readings -/

deriving instance DecidableEq for Program
deriving instance DecidableEq for SyntaxFault

instance (source text : String) (result : Except SyntaxFault Program) :
    Decidable (Program.ofText source text = result) :=
  match Program.ofText source text, result with
  | .ok program, .ok program' => decidable_of_iff (program = program') (by simp)
  | .error fault, .error fault' => decidable_of_iff (fault = fault') (by simp)
  | .ok _, .error _ | .error _, .ok _ => isFalse nofun

end BellaLang
