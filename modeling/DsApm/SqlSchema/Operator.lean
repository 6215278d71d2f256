import DsApm.Lib.GoSlice
import DsApm.SqlSchema.Table
import Mathlib.Data.List.Destutter
/-!
# Operator — the statements that change one table into another

`operator.go`.  Every operation returns the table as it has been changed in memory and the statements for the database.
`alterTable` is the sequence of its steps in the source's order; the two loops that drop foreign keys and columns range over
the slice they delete from.
-/
namespace DsApm
namespace SqlSchema

structure OperatorSupport where
  sCreateAndDropConstraint : Bool
  sAlterTableAddAndDropColumnIfNotExistsAndExists : Bool
  sAlterTableAlterColumnSetAndDrop : Bool
  deriving DecidableEq, Repr

def OperatorSupport.all : OperatorSupport := ⟨true, true, true⟩
def OperatorSupport.none : OperatorSupport := ⟨false, false, false⟩

theorem creates_of_all {support : OperatorSupport} (h : support = .all) : support.sCreateAndDropConstraint = true := by
  rw [h]; rfl

theorem creates_of_none {support : OperatorSupport} (h : support = .none) : support.sCreateAndDropConstraint = false := by
  rw [h]; rfl

structure Operator where
  fmter : SQLFormatter
  support : OperatorSupport

def findColumnByName (table : Table) (columnName : ColumnName) : Option Nat :=
  table.columns.findIdx? (fun column => column.name == columnName)

def findForeignKeyConstraint (table : Table) (constraint : ForeignKeyConstraint) : Option Nat :=
  table.foreignKeyConstraints.findIdx? (fun fk => fk.equals constraint)

def findUniqueConstraint (uniqueConstraints : List UniqueConstraint) : Constraint → Option Nat
  | .unique constraint => uniqueConstraints.findIdx? (fun unique => unique.equals constraint)
  | _ => .none

namespace Operator

variable (operator : Operator)

def recreateTable (table : Table) (uniqueConstraints : List UniqueConstraint) : List Stmt :=
  table.toCreateTempInsertDropAlterSQL operator.fmter ++
    uniqueConstraints.map (fun unique => unique.toIndexSQL table.name)

def renameTable (table : Table) (newName : TableName) : Table × List Stmt :=
  ({ table with name := newName }, [.renameTable table.name newName])

def addColumn (table : Table) (uniqueConstraints : List UniqueConstraint) (column : Column) (val : Option Value) :
    Table × List Stmt :=
  match findColumnByName table column.name with
  | some _ => (table, [])
  | .none =>
    let table := { table with columns := table.columns ++ [column] }
    let sqls := [column.toAddSQL operator.fmter table.name
      operator.support.sAlterTableAddAndDropColumnIfNotExistsAndExists]
    let sqls := match val with
      | some v => sqls ++ [.update table.name column.name v]
      | .none => sqls
    let sqls := if column.nullable = false ∧ column.default = "" ∧ val = .none then
      sqls ++ [.update table.name column.name (.zero column.dataType.z)] else sqls
    let sqls := if column.nullable = false then
      (if operator.support.sAlterTableAlterColumnSetAndDrop then sqls ++ [.setNotNull table.name column.name]
        else sqls ++ operator.recreateTable table uniqueConstraints) else sqls
    (table, sqls)

/-- The statements for the three attributes of a column, where the engine can change them. -/
def alterColumnSQL (tableName : TableName) (oldColumn column : Column) : List Stmt :=
  (if oldColumn.dataType ≠ column.dataType then
    [.setDataType tableName column.name (operator.fmter.sqlDataTypeOf column.dataType)] else []) ++
  (if oldColumn.nullable ≠ column.nullable then
    [if column.nullable then .dropNotNull tableName column.name else .setNotNull tableName column.name] else []) ++
  (if oldColumn.default ≠ column.default then
    [if column.default ≠ "" then .setDefault tableName column.name column.default
      else .dropDefault tableName column.name] else [])

def alterColumn (table : Table) (uniqueConstraints : List UniqueConstraint) (column : Column) : Table × List Stmt :=
  match findColumnByName table column.name with
  | .none => (table, [])
  | some index =>
    match table.columns[index]? with
    | .none => (table, [])
    | some oldColumn =>
      if oldColumn.equals column then (table, [])
      else
        let recreateTable := oldColumn.dataType ≠ column.dataType ∨ oldColumn.nullable ≠ column.nullable ∨
          oldColumn.default ≠ column.default
        let table' := { table with columns := table.columns.set index column }
        if operator.support.sAlterTableAlterColumnSetAndDrop then
          (table', operator.alterColumnSQL table.name oldColumn column)
        else (table', if recreateTable then operator.recreateTable table' uniqueConstraints else [])

def dropColumn (table : Table) (column : Column) : Table × List Stmt :=
  match findColumnByName table column.name with
  | .none => (table, [])
  | some _ =>
    ({ table with columns := table.columns.eraseP (fun c => c.name == column.name) },
      [.dropColumn table.name operator.support.sAlterTableAddAndDropColumnIfNotExistsAndExists column.name])

def createConstraint (table : Table) (uniqueConstraints : List UniqueConstraint) (constraint : Constraint) :
    Table × List Stmt :=
  match constraint with
  | .foreignKey fk =>
    if table.foreignKeyConstraints.any fk.equals then (table, [])
    else
      let table := { table with foreignKeyConstraints := table.foreignKeyConstraints ++ [fk] }
      (table, if operator.support.sCreateAndDropConstraint then constraint.toCreateSQL table.name
        else operator.recreateTable table uniqueConstraints)
  | .primaryKey pk =>
    let sqls := match table.primaryKeyConstraint with
      | some old => [(Constraint.primaryKey old).toDropSQL table.name]
      | .none => []
    let table := { table with primaryKeyConstraint := some pk }
    (table, if operator.support.sCreateAndDropConstraint then sqls ++ constraint.toCreateSQL table.name
      else operator.recreateTable table uniqueConstraints)
  | .unique _ =>
    (table, if operator.support.sCreateAndDropConstraint then constraint.toCreateSQL table.name
      else operator.recreateTable table uniqueConstraints)

def dropConstraint (table : Table) (uniqueConstraints : List UniqueConstraint) (constraint : Constraint) :
    Table × List Stmt :=
  match table.dropConstraint constraint with
  | (table', some toDrop) =>
    (table', if operator.support.sCreateAndDropConstraint then [toDrop.toDropSQL table'.name]
      else operator.recreateTable table' uniqueConstraints)
  | (table', .none) =>
    match findUniqueConstraint uniqueConstraints constraint with
    | .none => (table', [])
    | some index =>
      match uniqueConstraints[index]? with
      | .none => (table', [])
      | some unique =>
        (table', if operator.support.sCreateAndDropConstraint then [(Constraint.unique unique).toDropSQL table'.name]
          else operator.recreateTable table' (uniqueConstraints.eraseIdx index))

/-! ## AlterTable -/

/-- The old table as it has been changed so far, and the statements collected for it. -/
structure Script where
  table : Table
  sql : List Stmt

def Script.add (s : Script) (r : Table × List Stmt) : Script := ⟨r.1, s.sql ++ r.2⟩

section
variable (uniqueConstraints : List UniqueConstraint) (newTable : Table)

def dropPrimaryKey (s : Script) : Script :=
  match s.table.primaryKeyConstraint, newTable.primaryKeyConstraint with
  | some pk, .none => s.add (operator.dropConstraint s.table uniqueConstraints (.primaryKey pk))
  | some pk, some newPk =>
    if pk.equals newPk then s else s.add (operator.dropConstraint s.table uniqueConstraints (.primaryKey pk))
  | .none, _ => s

def dropForeignKeyPass (s : Script) (fk : ForeignKeyConstraint) : Script :=
  if (findForeignKeyConstraint newTable fk).isNone then
    s.add (operator.dropConstraint s.table uniqueConstraints (.foreignKey fk)) else s

def dropForeignKeys (s : Script) : Script :=
  GoSlice.rangeOver (fun s => s.table.foreignKeyConstraints) (operator.dropForeignKeyPass uniqueConstraints newTable) s

def dropUniques (s : Script) : Script :=
  uniqueConstraints.foldl (fun s unique => s.add (operator.dropConstraint s.table uniqueConstraints (.unique unique))) s

/-- Reduce the number of recreations where constraints cannot be dropped. -/
def reduceDrops (s : Script) : Script :=
  if operator.support.sCreateAndDropConstraint = false ∧ s.sql ≠ [] then
    { s with sql := operator.recreateTable s.table [] } else s

def dropColumnPass (s : Script) (column : Column) : Script :=
  if (findColumnByName newTable column.name).isNone then s.add (operator.dropColumn s.table column) else s

def dropColumns (s : Script) : Script :=
  GoSlice.rangeOver (fun s => s.table.columns) (operator.dropColumnPass newTable) s

def addColumns (s : Script) : Script :=
  newTable.columns.foldl (fun s column =>
    if (findColumnByName s.table column.name).isNone then
      s.add (operator.addColumn s.table uniqueConstraints column .none) else s) s

/-- The alterations as a script of their own, which one recreation stands for where columns cannot be altered. -/
def modifyColumns (s : Script) : Script :=
  let altered := newTable.columns.foldl
    (fun (s : Script) column => s.add (operator.alterColumn s.table uniqueConstraints column)) ⟨s.table, []⟩
  if altered.sql = [] then { s with table := altered.table }
  else if operator.support.sAlterTableAlterColumnSetAndDrop then ⟨altered.table, s.sql ++ altered.sql⟩
  else ⟨altered.table, s.sql ++ operator.recreateTable altered.table []⟩

def rename (s : Script) : Script :=
  if s.table.name ≠ newTable.name then s.add (renameTable s.table newTable.name) else s

/-- A key that is there and differs was dropped at the start; a new table without a key never gets to the comparison. -/
def createPrimaryKey (s : Script) : Script :=
  match s.table.primaryKeyConstraint, newTable.primaryKeyConstraint with
  | .none, some newPk => s.add (operator.createConstraint s.table uniqueConstraints (.primaryKey newPk))
  | some pk, some newPk =>
    if pk.equals newPk then s else s.add (operator.createConstraint s.table uniqueConstraints (.primaryKey newPk))
  | _, .none => s

def createForeignKeys (s : Script) : Script :=
  newTable.foreignKeyConstraints.foldl (fun s fk =>
    if (findForeignKeyConstraint s.table fk).isNone then
      s.add (operator.createConstraint s.table uniqueConstraints (.foreignKey fk)) else s) s

def createIndices (s : Script) : Script :=
  { s with sql := s.sql ++ uniqueConstraints.map (fun unique => unique.toIndexSQL s.table.name) }

end

/-- `AlterTable`: the old table as it is afterwards, and the statements without neighbouring repetitions. -/
def alterTable (oldTable : Table) (oldTableUniqueConstraints : List UniqueConstraint) (newTable : Table) :
    Table × List Stmt :=
  let s : Script := ⟨oldTable, []⟩
  let s := operator.dropPrimaryKey oldTableUniqueConstraints newTable s
  let s := operator.dropForeignKeys oldTableUniqueConstraints newTable s
  let s := operator.dropUniques oldTableUniqueConstraints s
  let s := operator.reduceDrops s
  let s := operator.dropColumns newTable s
  let s := operator.addColumns oldTableUniqueConstraints newTable s
  let s := operator.modifyColumns oldTableUniqueConstraints newTable s
  let s := rename newTable s
  let s := operator.createPrimaryKey oldTableUniqueConstraints newTable s
  let s := operator.createForeignKeys oldTableUniqueConstraints newTable s
  let s := createIndices oldTableUniqueConstraints s
  (s.table, s.sql.destutter (· ≠ ·))

end Operator
end SqlSchema
end DsApm
