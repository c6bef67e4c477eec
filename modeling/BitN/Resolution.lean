import BitN.Names
import BitN.Typing
import BitN.TypeInference

/-! Which declaration an identifier stands for, names compared by their lexemes: the
innermost enclosing block that has one, earlier in the text, or a function of the program. -/
namespace BitN.Resolution

open Typing

abbrev Sight := List (List Binding)

def candidates : Sight → CString → List Binding
  | [], _ => []
  | scope :: outer, name =>
    match scope.filter fun b => lexeme b.1 = lexeme name with
    | [] => candidates outer name
    | found => found

def Undeclared (sight : Sight) (name : CString) : Prop := candidates sight name = []

instance (sight : Sight) (name : CString) : Decidable (Undeclared sight name) :=
  inferInstanceAs (Decidable (candidates sight name = []))

/-- An identifier has the type of a declaration it stands for; without one, it agrees with any. -/
def agreeing (sight : Sight) (name : CString) (type : TypeKind) : Prop :=
  Undeclared sight name ∨ ∃ b ∈ candidates sight name, b.2 = type

structure Site where
  sight : Sight
  expr : ASTExpr
  wanted : Option TypeKind

def Site.Agrees (site : Site) : Prop :=
  ∃ type, HasType (agreeing site.sight) site.expr type ∧ ∀ wanted ∈ site.wanted, wanted = type

def declared : Sight → ASTStmt → Sight
  | scope :: outer, .varDecl name (some type) _ _ => (scope ++ [(name, type)]) :: outer
  | sight, _ => sight

mutual
def stmtSites (expected : Option TypeKind) : Sight → ASTStmt → List Site
  | sight, .varDecl _ type init _ => [⟨sight, init, type⟩]
  | sight, .expr e => [⟨sight, e, none⟩]
  | _, .ret .null => []
  | sight, .ret value => [⟨sight, value, expected⟩]
  | sight, .block statements => blockSites expected ([] :: sight) statements
  | _, .null | _, .ifStmt | _, .whileStmt => []
def blockSites (expected : Option TypeKind) : Sight → List ASTStmt → List Site
  | _, [] => []
  | sight, s :: statements => stmtSites expected sight s ++ blockSites expected (declared sight s) statements
end

def functionSites (globals : List Binding) (func : ASTFunctionDef) : List Site :=
  stmtSites func.returnType [globals] func.body

def sites (program : ASTProgram) : List Site :=
  program.functions.flatMap (functionSites (functionTypes program.functions))

/-! Scopes, each by the names declared in it -/

def declaredName : ASTStmt → Option CString
  | .varDecl name _ _ _ => some name
  | _ => none

mutual
def stmtScopes : ASTStmt → List (List CString)
  | .block statements => statements.filterMap declaredName :: blockScopes statements
  | _ => []
def blockScopes : List ASTStmt → List (List CString)
  | [] => []
  | s :: statements => stmtScopes s ++ blockScopes statements
end

def scopes (program : ASTProgram) : List (List CString) :=
  program.functions.map ASTFunctionDef.name :: program.functions.flatMap fun func => stmtScopes func.body

def Apart (program : ASTProgram) : Prop := ∀ scope ∈ scopes program, (scope.map lexeme).Nodup

/-! Reports -/

def redefines : Report → Bool
  | .symbolDefined _ | .parameterDefined _ | .functionDefined _ => true
  | _ => false

/-- What the checker makes of a program when it resolves names by their lexemes. -/
structure Resolved (program : ASTProgram) (result : Bool × TypeContext) : Prop where
  undefined : ∀ site ∈ sites program, ∀ use ∈ site.expr.names,
    .undefinedVariable use ∈ result.2.reports ↔ Undeclared site.sight use
  redefined : (∃ report ∈ result.2.reports, redefines report) ↔ ¬ Apart program
  accepted : (∀ site ∈ sites program, ∀ use ∈ site.expr.names, ¬ Undeclared site.sight use) → Apart program →
    result.1 = true

def LeftmostUndeclared (program : ASTProgram) : Prop :=
  ∀ site ∈ sites program, ∀ use ∈ site.expr.names, Undeclared site.sight use ↔ site.expr.names.head? = some use

end BitN.Resolution
