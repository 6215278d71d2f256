import DsApm.SqlSchema.Engine
/-!
# Migration — when altering a table reaches the table asked for

`Reaches` is what `AlterTable` is for, in memory and in the database; `Migrates` is the condition on the tables under
which it does that.
-/
namespace DsApm
namespace SqlSchema

def Table.columnNames (table : Table) : List ColumnName := table.columns.map Column.name

def Table.foreignKeyDefs (table : Table) : List ForeignKeyDef :=
  table.foreignKeyConstraints.map ForeignKeyConstraint.toDefinitionSQL

/-- The table in a database whose constraints have the names they get in a table called `base`. -/
def Table.schemaNamed (fmter : SQLFormatter) (base : TableName) (table : Table)
    (uniqueConstraints : List UniqueConstraint) : TableSchema where
  name := table.name
  columns := table.columns.map (Column.toDefinitionSQL fmter)
  primaryKey := table.primaryKeyConstraint.map (fun pk => (pk.nameIn base, pk.columnNames))
  foreignKeys := table.foreignKeyConstraints.map (fun fk => (fk.nameIn base, fk.toDefinitionSQL))
  uniques := uniqueConstraints.map (fun unique => (unique.nameIn base, unique.columnNames))

def Table.schema (fmter : SQLFormatter) (table : Table) (uniqueConstraints : List UniqueConstraint) : TableSchema :=
  table.schemaNamed fmter table.name uniqueConstraints

/-! ## What is reached -/

/-- The key has the columns of the primary key asked for, or there is none on either side. -/
def SameKey : Option (List ColumnName) → Option PrimaryKeyConstraint → Prop
  | none, none => True
  | some columns, some newPk => PrimaryKeyConstraint.equals ⟨columns, ""⟩ newPk = true
  | _, _ => False

instance : ∀ (columns : Option (List ColumnName)) (pk : Option PrimaryKeyConstraint), Decidable (SameKey columns pk)
  | none, none => inferInstanceAs (Decidable True)
  | some c, some p => inferInstanceAs (Decidable (PrimaryKeyConstraint.equals ⟨c, ""⟩ p = true))
  | none, some _ => inferInstanceAs (Decidable False)
  | some _, none => inferInstanceAs (Decidable False)

/-- The table in memory has the new table's name, columns, primary key and set of foreign keys. -/
def Table.Matches (table newTable : Table) : Prop :=
  table.name = newTable.name ∧ table.columns.Perm newTable.columns ∧
    SameKey (table.primaryKeyConstraint.map PrimaryKeyConstraint.columnNames) newTable.primaryKeyConstraint ∧
    (∀ d, d ∈ table.foreignKeyDefs ↔ d ∈ newTable.foreignKeyDefs)

def TableSchema.Matches (fmter : SQLFormatter) (t : TableSchema) (newTable : Table) : Prop :=
  t.name = newTable.name ∧ t.columns.Perm (newTable.columns.map (Column.toDefinitionSQL fmter)) ∧
    SameKey (t.primaryKey.map Prod.snd) newTable.primaryKeyConstraint ∧
    (∀ d, d ∈ t.foreignKeys.map Prod.snd ↔ d ∈ newTable.foreignKeyDefs) ∧ t.uniques = []

def IndexesMatch (indexes : List IndexSchema) (tableName : TableName) (uniqueConstraints : List UniqueConstraint) : Prop :=
  (∀ i ∈ indexes, i.table = tableName) ∧ (indexes.map IndexSchema.columns).Nodup ∧
    (∀ columns, columns ∈ indexes.map IndexSchema.columns ↔
      columns ∈ uniqueConstraints.map UniqueConstraint.columnNames)

def Database.Matches (fmter : SQLFormatter) (db : Database) (newTable : Table)
    (uniqueConstraints : List UniqueConstraint) : Prop :=
  ∃ t, db.tables = [t] ∧ t.Matches fmter newTable ∧ IndexesMatch db.indexes newTable.name uniqueConstraints

def Table.database (fmter : SQLFormatter) (table : Table) (uniqueConstraints : List UniqueConstraint) : Database :=
  ⟨[table.schema fmter uniqueConstraints], []⟩

/-- `AlterTable` has made the old table the new one, and its statements make the old schema the new one. -/
def Operator.Reaches (operator : Operator) (oldTable : Table) (uniqueConstraints : List UniqueConstraint)
    (newTable : Table) : Prop :=
  (operator.alterTable oldTable uniqueConstraints newTable).1.Matches newTable ∧
    ∃ db, runAll operator.support (operator.alterTable oldTable uniqueConstraints newTable).2
        (oldTable.database operator.fmter uniqueConstraints) = some db ∧
      db.Matches operator.fmter newTable uniqueConstraints

/-! ## The condition -/

def Table.lacksColumn (newTable : Table) (name : ColumnName) : Bool := !newTable.columnNames.contains name

def Table.lacksForeignKey (newTable : Table) (d : ForeignKeyDef) : Bool := !newTable.foreignKeyDefs.contains d

def keepsPrimaryKey (oldTable newTable : Table) : Bool :=
  match oldTable.primaryKeyConstraint, newTable.primaryKeyConstraint with
  | some pk, some newPk => pk.equals newPk
  | _, _ => false

def primaryKeyAfter (oldTable newTable : Table) : Option PrimaryKeyConstraint :=
  if keepsPrimaryKey oldTable newTable then oldTable.primaryKeyConstraint else newTable.primaryKeyConstraint

def missingForeignKeys (there : List ForeignKeyDef) : List ForeignKeyConstraint → List ForeignKeyConstraint
  | [] => []
  | fk :: rest =>
    if fk.toDefinitionSQL ∈ there then missingForeignKeys there rest
    else fk :: missingForeignKeys (there ++ [fk.toDefinitionSQL]) rest

/-- The names of the constraints that stay and of those that are created under the new table's name. -/
def constraintNamesAfter (oldTable newTable : Table) : List String :=
  (primaryKeyAfter oldTable newTable).toList.map (fun pk =>
    pk.nameIn (if keepsPrimaryKey oldTable newTable then oldTable.name else newTable.name)) ++
  (oldTable.foreignKeyConstraints.filter (fun fk => !newTable.lacksForeignKey fk.toDefinitionSQL)).map
    (fun fk => fk.nameIn oldTable.name) ++
  (missingForeignKeys oldTable.foreignKeyDefs newTable.foreignKeyConstraints).map (fun fk => fk.nameIn newTable.name)

def keepsColumns (oldTable newTable : Table) : Prop :=
  ∀ c ∈ newTable.columns, c.name ∈ oldTable.columnNames → c ∈ oldTable.columns

instance (oldTable newTable : Table) : Decidable (keepsColumns oldTable newTable) :=
  inferInstanceAs (Decidable (∀ c ∈ newTable.columns, c.name ∈ oldTable.columnNames → c ∈ oldTable.columns))

def addsNotNull (oldTable newTable : Table) : Prop :=
  ∃ c ∈ newTable.columns, c.nullable = false ∧ c.name ∉ oldTable.columnNames

instance (oldTable newTable : Table) : Decidable (addsNotNull oldTable newTable) :=
  inferInstanceAs (Decidable (∃ c ∈ newTable.columns, c.nullable = false ∧ c.name ∉ oldTable.columnNames))

def keepsKeys (oldTable newTable : Table) : Prop :=
  (newTable.primaryKeyConstraint = none ∨ keepsPrimaryKey oldTable newTable = true) ∧
    ∀ d ∈ newTable.foreignKeyDefs, d ∈ oldTable.foreignKeyDefs

instance (oldTable newTable : Table) : Decidable (keepsKeys oldTable newTable) :=
  inferInstanceAs (Decidable ((newTable.primaryKeyConstraint = none ∨ keepsPrimaryKey oldTable newTable = true) ∧
    ∀ d ∈ newTable.foreignKeyDefs, d ∈ oldTable.foreignKeyDefs))

/-- Indexes made under the old name stay beside those made under the new one: the last recreation of the table made them,
for a column that must not be null, and then the table is renamed. -/
def leavesIndexes (oldTable : Table) (uniqueConstraints : List UniqueConstraint) (newTable : Table) : Prop :=
  uniqueConstraints ≠ [] ∧ oldTable.name ≠ newTable.name ∧
    addsNotNull oldTable newTable ∧ keepsColumns oldTable newTable ∧ keepsKeys oldTable newTable

/-- **When a migration reaches its table.** -/
structure Operator.Migrates (operator : Operator) (oldTable : Table) (uniqueConstraints : List UniqueConstraint)
    (newTable : Table) : Prop where
  /-- The loop over the columns steps over none that is to go, except the last. -/
  columns : GoSlice.Meets newTable.lacksColumn oldTable.columnNames
  foreignKeys : GoSlice.Meets newTable.lacksForeignKey oldTable.foreignKeyDefs
  /-- The keys that stay or are asked for are over columns asked for. -/
  primaryKey : ∀ pk ∈ primaryKeyAfter oldTable newTable, ∀ c ∈ pk.columnNames, c ∈ newTable.columnNames
  references : ∀ d ∈ newTable.foreignKeyDefs, d.referencingColumnName ∈ newTable.columnNames
  uniques : ∀ u ∈ uniqueConstraints, ∀ c ∈ u.columnNames, c ∈ newTable.columnNames
  /-- Different unique constraints give different index names. -/
  indexNames : ∀ u ∈ uniqueConstraints, ∀ v ∈ uniqueConstraints,
    "_".intercalate u.columnNames = "_".intercalate v.columnNames → u.columnNames = v.columnNames
  /-- No unique constraint is contained in an earlier one, which would be dropped in its place. -/
  apart : operator.support.sCreateAndDropConstraint = true →
    uniqueConstraints.Pairwise (fun earlier later => earlier.equals later = false)
  names : operator.support.sCreateAndDropConstraint = true → (constraintNamesAfter oldTable newTable).Nodup
  /-- A table never loses all its columns on the way. -/
  remains : operator.support.sCreateAndDropConstraint = false → ∃ c ∈ oldTable.columnNames, c ∈ newTable.columnNames
  leaves : operator.support.sCreateAndDropConstraint = false → ¬ leavesIndexes oldTable uniqueConstraints newTable

end SqlSchema
end DsApm
