import RpgLowering.Source.Type
import RpgLowering.Source.Stmt

/-! A resolved RPG program. -/
namespace RpgLowering.Source

structure DataDefinition where
  id : DataId
  name : String
  ty : Ty
  initial : Option Expr := none
  span : Option Span := none

/-- A field defined by the result column of a statement; it has no initial value. -/
structure InStatementDefinition where
  id : DataId
  name : String
  ty : Ty
  span : Option Span := none

def InStatementDefinition.toDefinition (d : InStatementDefinition) : DataDefinition :=
  { id := d.id, name := d.name, ty := d.ty, span := d.span }

structure Subroutine where
  id : SubroutineId
  name : String
  stmts : List Stmt := []
  span : Option Span := none

structure CompilationUnit where
  data : List DataDefinition := []
  inStatement : List InStatementDefinition := []
  subroutines : List Subroutine := []
  main : List Stmt := []
  entry : Option ParameterList := none

namespace CompilationUnit

/-- Every data declaration, definitions before those in statements. -/
def declarations (u : CompilationUnit) : List DataDefinition :=
  u.data ++ u.inStatement.map InStatementDefinition.toDefinition

/-- The first declaration with an identity. -/
def declaration? (u : CompilationUnit) (id : DataId) : Option DataDefinition :=
  u.declarations.find? (·.id == id)

/-- The first subroutine with an identity. -/
def subroutine? (u : CompilationUnit) (id : SubroutineId) : Option Subroutine :=
  u.subroutines.find? (·.id == id)

end CompilationUnit

end RpgLowering.Source
