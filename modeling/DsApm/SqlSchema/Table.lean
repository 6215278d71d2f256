import Mathlib.Data.List.Basic
/-!
# Table — tables, their keys and the statements written for them

`table.go`, `column.go`, `constraint.go` and the unique index of `index.go`.  A statement is kept as what its text says:
the identifiers, the type as the formatter writes it, the default as given.  The three `DROP CONSTRAINT` texts are one
text and hence one statement.
-/
namespace DsApm
namespace SqlSchema

abbrev TableName := String
abbrev ColumnName := String

/-! ## Columns -/

/-- The zero value of a data type, which a new column without a default is filled with. -/
inductive ZeroValue
  | text | int | float | bool | time | null
  deriving DecidableEq, Repr

structure DataType where
  s : String
  z : ZeroValue
  deriving DecidableEq, Repr

def dataTypeText : DataType := ⟨"text", .text⟩
def dataTypeBytea : DataType := ⟨"bytea", .text⟩
def dataTypeInteger : DataType := ⟨"integer", .int⟩
def dataTypeNumeric : DataType := ⟨"numeric", .float⟩

structure SQLFormatter where
  sqlDataTypeOf : DataType → String

def formatter : SQLFormatter where
  sqlDataTypeOf dataType := if dataType = dataTypeBytea then dataTypeText.s.toUpper else dataType.s.toUpper

def sqliteFormatter : SQLFormatter where
  sqlDataTypeOf dataType := if dataType = dataTypeNumeric then "REAL" else dataType.s.toUpper

structure Column where
  name : ColumnName
  dataType : DataType
  nullable : Bool
  default : String
  deriving DecidableEq, Repr

def Column.equals (column other : Column) : Bool :=
  column.name == other.name && column.dataType == other.dataType && column.nullable == other.nullable &&
    column.default == other.default

/-- A column as a statement or a schema declares it; an empty default is none. -/
structure ColumnDef where
  name : ColumnName
  sqlType : String
  nullable : Bool
  default : String
  deriving DecidableEq, Repr

def Column.toDefinitionSQL (fmter : SQLFormatter) (column : Column) : ColumnDef :=
  ⟨column.name, fmter.sqlDataTypeOf column.dataType, column.nullable, column.default⟩

/-! ## Constraints -/

structure PrimaryKeyConstraint where
  columnNames : List ColumnName
  name : String
  deriving DecidableEq, Repr

structure ForeignKeyConstraint where
  referencingColumnName : ColumnName
  referencedTableName : TableName
  referencedColumnName : ColumnName
  name : String
  deriving DecidableEq, Repr

structure UniqueConstraint where
  columnNames : List ColumnName
  name : String
  deriving DecidableEq, Repr

def nameOr (name generated : String) : String := if name ≠ "" then name else generated

def PrimaryKeyConstraint.nameIn (constraint : PrimaryKeyConstraint) (tableName : TableName) : String :=
  nameOr constraint.name ("pk_" ++ tableName)

def ForeignKeyConstraint.nameIn (constraint : ForeignKeyConstraint) (tableName : TableName) : String :=
  nameOr constraint.name ("fk_" ++ tableName ++ "_" ++ constraint.referencingColumnName)

def uniqueName (tableName : TableName) (columnNames : List ColumnName) : String :=
  "uq_" ++ tableName ++ "_" ++ "_".intercalate columnNames

def UniqueConstraint.nameIn (constraint : UniqueConstraint) (tableName : TableName) : String :=
  nameOr constraint.name (uniqueName tableName constraint.columnNames)

def PrimaryKeyConstraint.named (constraint : PrimaryKeyConstraint) (name : String) : PrimaryKeyConstraint :=
  { constraint with name := name }

def ForeignKeyConstraint.named (constraint : ForeignKeyConstraint) (name : String) : ForeignKeyConstraint :=
  { constraint with name := name }

/-- As many columns, and all of them found: the order does not count. -/
def PrimaryKeyConstraint.equals (constraint other : PrimaryKeyConstraint) : Bool :=
  constraint.columnNames.length == other.columnNames.length &&
    other.columnNames.all (fun column => constraint.columnNames.contains column)

def ForeignKeyConstraint.equals (constraint other : ForeignKeyConstraint) : Bool :=
  constraint.referencingColumnName == other.referencingColumnName &&
    constraint.referencedTableName == other.referencedTableName &&
    constraint.referencedColumnName == other.referencedColumnName

/-- All columns of the other are found; how many there are is not compared. -/
def UniqueConstraint.equals (constraint other : UniqueConstraint) : Bool :=
  other.columnNames.all (fun column => constraint.columnNames.contains column)

structure ForeignKeyDef where
  referencingColumnName : ColumnName
  referencedTableName : TableName
  referencedColumnName : ColumnName
  deriving DecidableEq, Repr

def ForeignKeyConstraint.toDefinitionSQL (constraint : ForeignKeyConstraint) : ForeignKeyDef :=
  ⟨constraint.referencingColumnName, constraint.referencedTableName, constraint.referencedColumnName⟩

inductive Constraint
  | primaryKey (constraint : PrimaryKeyConstraint)
  | foreignKey (constraint : ForeignKeyConstraint)
  | unique (constraint : UniqueConstraint)
  deriving DecidableEq, Repr

def Constraint.equals : Constraint → Constraint → Bool
  | .primaryKey c, .primaryKey o => c.equals o
  | .foreignKey c, .foreignKey o => c.equals o
  | .unique c, .unique o => c.equals o
  | _, _ => false

def Constraint.nameIn (tableName : TableName) : Constraint → String
  | .primaryKey c => c.nameIn tableName
  | .foreignKey c => c.nameIn tableName
  | .unique c => c.nameIn tableName

/-! ## Tables -/

structure Table where
  name : TableName
  columns : List Column
  primaryKeyConstraint : Option PrimaryKeyConstraint
  foreignKeyConstraints : List ForeignKeyConstraint
  deriving DecidableEq, Repr

def Table.dropConstraint (table : Table) (constraint : Constraint) : Table × Option Constraint :=
  match constraint with
  | .foreignKey fk =>
    match table.foreignKeyConstraints.find? fk.equals with
    | some found => ({ table with foreignKeyConstraints := table.foreignKeyConstraints.eraseP fk.equals },
        some (.foreignKey found))
    | none => (table, none)
  | _ =>
    match table.primaryKeyConstraint with
    | some pk => if constraint.equals (.primaryKey pk) then
        ({ table with primaryKeyConstraint := none }, some (.primaryKey pk)) else (table, none)
    | none => (table, none)

structure TableDef where
  name : TableName
  columns : List ColumnDef
  primaryKey : Option (String × List ColumnName)
  foreignKeys : List (String × ForeignKeyDef)
  deriving DecidableEq, Repr

/-! ## Statements -/

inductive Value
  | column (name : ColumnName)
  | zero (z : ZeroValue)
  | literal (text : String)
  deriving DecidableEq, Repr

inductive Stmt
  /-- `CREATE TABLE IF NOT EXISTS`. -/
  | createTable (table : TableDef)
  /-- `INSERT INTO … (columns) SELECT columns FROM …`. -/
  | insertSelect (into source : TableName) (columns : List ColumnName)
  /-- `DROP TABLE IF EXISTS`. -/
  | dropTable (table : TableName)
  | renameTable (table newName : TableName)
  | addColumn (table : TableName) (ifNotExists : Bool) (column : ColumnDef)
  | dropColumn (table : TableName) (ifExists : Bool) (column : ColumnName)
  | update (table : TableName) (column : ColumnName) (value : Value)
  | setNotNull (table : TableName) (column : ColumnName)
  | dropNotNull (table : TableName) (column : ColumnName)
  | setDefault (table : TableName) (column : ColumnName) (default : String)
  | dropDefault (table : TableName) (column : ColumnName)
  | setDataType (table : TableName) (column : ColumnName) (sqlType : String)
  | addPrimaryKey (table : TableName) (name : String) (columns : List ColumnName)
  | addForeignKey (table : TableName) (name : String) (key : ForeignKeyDef)
  /-- `ALTER TABLE … DROP CONSTRAINT IF EXISTS`. -/
  | dropConstraint (table : TableName) (name : String)
  /-- `CREATE UNIQUE INDEX IF NOT EXISTS`. -/
  | createUniqueIndex (name : String) (table : TableName) (columns : List ColumnName)
  deriving DecidableEq, Repr

/-- A column that must not be null and has no default is added as a nullable one. -/
def Column.toAddSQL (fmter : SQLFormatter) (column : Column) (tableName : TableName) (ifNotExists : Bool) : Stmt :=
  if column.default = "" ∧ column.nullable = false then
    .addColumn tableName ifNotExists ({ column with nullable := true }.toDefinitionSQL fmter)
  else .addColumn tableName ifNotExists (column.toDefinitionSQL fmter)

def Table.toCreateSQL (fmter : SQLFormatter) (table : Table) : Stmt :=
  .createTable
    { name := table.name
      columns := table.columns.map (Column.toDefinitionSQL fmter)
      primaryKey := table.primaryKeyConstraint.map (fun pk => (pk.nameIn table.name, pk.columnNames))
      foreignKeys := table.foreignKeyConstraints.map (fun fk => (fk.nameIn table.name, fk.toDefinitionSQL)) }

/-- The table a recreation builds: the same one under another name, its constraints with the names they have. -/
def Table.temp (table : Table) : Table :=
  { name := table.name ++ "__temp"
    columns := table.columns
    primaryKeyConstraint := table.primaryKeyConstraint.map (fun pk => pk.named (pk.nameIn table.name))
    foreignKeyConstraints := table.foreignKeyConstraints.map (fun fk => fk.named (fk.nameIn table.name)) }

def Table.toCreateTempInsertDropAlterSQL (fmter : SQLFormatter) (table : Table) : List Stmt :=
  [ table.temp.toCreateSQL fmter,
    .insertSelect table.temp.name table.name (table.columns.map Column.name),
    .dropTable table.name,
    .renameTable table.temp.name table.name ]

def Constraint.toDropSQL (constraint : Constraint) (tableName : TableName) : Stmt :=
  .dropConstraint tableName (constraint.nameIn tableName)

/-- A unique constraint has no such text and none is asked for. -/
def Constraint.toCreateSQL (constraint : Constraint) (tableName : TableName) : List Stmt :=
  match constraint with
  | .primaryKey c => [.addPrimaryKey tableName (c.nameIn tableName) c.columnNames]
  | .foreignKey c => [.addForeignKey tableName (c.nameIn tableName) c.toDefinitionSQL]
  | .unique _ => []

/-- `uniqueConstraint.ToIndex(tableName).ToCreateSQL`: the index takes none of the constraint's own name. -/
def UniqueConstraint.toIndexSQL (constraint : UniqueConstraint) (tableName : TableName) : Stmt :=
  .createUniqueIndex (uniqueName tableName constraint.columnNames) tableName constraint.columnNames

end SqlSchema
end DsApm
