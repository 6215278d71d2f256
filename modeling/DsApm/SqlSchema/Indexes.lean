import DsApm.Lib.GoMap
import DsApm.Lib.GoStd
import DsApm.SqlSchema.Table
/-!
# Indexes — the difference of two lists of indexes

`index.go`, `normalizer.go`, and `DiffIndices`.  An index that is in both lists and has a name of its own is dropped and made
again, as the new list has it at the place of the old one: one that stands earlier in the new list is not made again, and where
the new list is shorter there is nothing to make (`diffIndices_iff`).
-/
namespace DsApm
namespace SqlSchema

/-! ## The text of a predicate -/

def isSimpleUnquotedIdentifier : List Char → Bool
  | [] => false
  | c :: s => (c.isLower || c == '_') && s.all fun c => c.isLower || c == '_' || c.isDigit

/-- Where the scan of a predicate stands: outside quotes, in a literal, or in a quoted token with its text and what it names. -/
inductive Quoting
  | outside
  | literal
  | token (text ident : List Char)

def normalizeLoop : Quoting → List Char → List Char → List Char
  | .outside, output, ' ' :: s => normalizeLoop .outside (blank output) s
  | .outside, output, '\t' :: s => normalizeLoop .outside (blank output) s
  | .outside, output, '\n' :: s => normalizeLoop .outside (blank output) s
  | .outside, output, '\r' :: s => normalizeLoop .outside (blank output) s
  | .outside, output, '\'' :: s => normalizeLoop .literal (output ++ ['\'']) s
  | .outside, output, '"' :: s => normalizeLoop (.token ['"'] []) output s
  | .outside, output, c :: s => normalizeLoop .outside (output ++ [c]) s
  | .literal, output, '\'' :: '\'' :: s => normalizeLoop .literal (output ++ ['\'', '\'']) s
  | .literal, output, '\'' :: s => normalizeLoop .outside (output ++ ['\'']) s
  | .literal, output, c :: s => normalizeLoop .literal (output ++ [c]) s
  | .token text ident, output, '"' :: '"' :: s => normalizeLoop (.token (text ++ ['"', '"']) (ident ++ ['"'])) output s
  | .token text ident, output, '"' :: s =>
    normalizeLoop .outside (output ++ if isSimpleUnquotedIdentifier ident then ident else text ++ ['"']) s
  | .token text ident, output, c :: s => normalizeLoop (.token (text ++ [c]) (ident ++ [c])) output s
  | .token text _, output, [] => output ++ text
  | _, output, [] => output
where
  /-- Blanks are one, and none at the start. -/
  blank (output : List Char) : List Char :=
    match output.getLast? with
    | none => output
    | some c => if c = ' ' then output else output ++ [' ']

/-- `hasWrappingParentheses`: whether the parenthesis at the start is closed at the end. -/
def hasWrappingParentheses : (inSingleQuotedLiteral inDoubleQuotedToken : Bool) → (depth : Int) → List Char → Bool
  | true, false, depth, '\'' :: '\'' :: s => hasWrappingParentheses true false depth s
  | false, true, depth, '"' :: '"' :: s => hasWrappingParentheses false true depth s
  | lit, tok, depth, c :: s =>
    if c = '\'' then hasWrappingParentheses (if tok then lit else !lit) tok depth s
    else if c = '"' then hasWrappingParentheses lit (if lit then tok else !tok) depth s
    else if c = '(' ∧ !lit ∧ !tok then hasWrappingParentheses lit tok (depth + 1) s
    else if c = ')' ∧ !lit ∧ !tok then
      if depth - 1 = 0 ∧ s ≠ [] then false else hasWrappingParentheses lit tok (depth - 1) s
    else hasWrappingParentheses lit tok depth s
  | _, _, depth, [] => depth = 0

/-- `stripOuterParentheses`; every turn takes two characters. -/
def stripOuterParentheses : Nat → String → String
  | 0, s => GoStd.trimSpace s
  | fuel + 1, s =>
    let s := GoStd.trimSpace s
    if s.length < 2 ∨ s.toList.head? ≠ some '(' ∨ s.toList.getLast? ≠ some ')' ∨
        hasWrappingParentheses false false 0 s.toList = false then s
    else stripOuterParentheses fuel (String.ofList s.toList.dropLast.tail)

def normalize (input : String) : String :=
  let where_ := GoStd.trimSpace input
  let where_ := stripOuterParentheses where_.length where_
  GoStd.trimSpace (String.ofList (normalizeLoop .outside [] where_.toList))

/-- `hash`: FNV-1a in 32 bits, as eight hexadecimal digits. -/
def hash (input : String) : String :=
  let sum := (normalize input).toUTF8.toList.foldl
    (fun (h : BitVec 32) b => (h ^^^ b.toBitVec.setWidth 32) * 16777619#32) 2166136261#32
  sum.toHex

/-! ## Indexes -/

structure UniqueIndex where
  tableName : TableName
  columnNames : List ColumnName
  name : String
  deriving DecidableEq, Repr

structure PartialUniqueIndex where
  tableName : TableName
  columnNames : List ColumnName
  where_ : String
  name : String
  deriving DecidableEq, Repr

inductive Index
  | unique (index : UniqueIndex)
  | partialUnique (index : PartialUniqueIndex)
  deriving DecidableEq, Repr

namespace Index

def tableName : Index → TableName
  | .unique index => index.tableName
  | .partialUnique index => index.tableName

def columns : Index → List ColumnName
  | .unique index => index.columnNames
  | .partialUnique index => index.columnNames

/-- `Name()`: the given name, or the one made from the table's. -/
def name : Index → String
  | .unique index => nameOr index.name (uniqueName index.tableName index.columnNames)
  | .partialUnique index => nameOr index.name
      ("puq_" ++ index.tableName ++ "_" ++ "_".intercalate index.columnNames ++ "_" ++ hash index.where_)

def isNamed : Index → Bool
  | .unique index => index.name != ""
  | .partialUnique index => index.name != ""

def equals : Index → Index → Bool
  | .unique index, .unique other =>
    (Index.unique index).name == (Index.unique other).name && index.columnNames == other.columnNames
  | .partialUnique index, .partialUnique other =>
    (Index.partialUnique index).name == (Index.partialUnique other).name && index.columnNames == other.columnNames &&
      normalize index.where_ == normalize other.where_
  | _, _ => false

end Index

inductive IndexStmt
  /-- `CREATE UNIQUE INDEX IF NOT EXISTS … ON … (…)`, with or without a `WHERE`. -/
  | create (name : String) (table : TableName) (columns : List ColumnName) (where_ : Option String)
  /-- `DROP INDEX IF EXISTS`. -/
  | drop (name : String)
  deriving DecidableEq, Repr

def Index.toCreateSQL : Index → IndexStmt
  | .unique index => .create (Index.unique index).name index.tableName index.columnNames none
  | .partialUnique index => .create (Index.partialUnique index).name index.tableName index.columnNames (some index.where_)

def Index.toDropSQL (index : Index) : IndexStmt := .drop index.name

def findIndex (indices : List Index) (index : Index) : Option Nat := indices.findIdx? fun input => index.equals input

/-- One turn of the loop over the old indexes; nothing where the new list has no such place. -/
def diffPass (newIndices : List Index) (i : Nat) (oldIndex : Index) : Option (List IndexStmt) :=
  if (findIndex newIndices oldIndex).isNone then some [oldIndex.toDropSQL]
  else if oldIndex.isNamed then newIndices[i]?.map fun newIndex => [oldIndex.toDropSQL, newIndex.toCreateSQL]
  else some []

def diffOld (newIndices : List Index) : Nat → List Index → Option (List IndexStmt)
  | _, [] => some []
  | i, oldIndex :: oldIndices =>
    match diffPass newIndices i oldIndex with
    | none => none
    | some sqls => (diffOld newIndices (i + 1) oldIndices).map (sqls ++ ·)

def diffNew (oldIndices newIndices : List Index) : List IndexStmt :=
  (newIndices.filter fun newIndex => (findIndex oldIndices newIndex).isNone).map Index.toCreateSQL

/-- `DiffIndices`; `none` is an index out of range. -/
def diffIndices (oldIndices newIndices : List Index) : Option (List IndexStmt) :=
  (diffOld newIndices 0 oldIndices).map (· ++ diffNew oldIndices newIndices)

/-! ## The database -/

/-- An index as a database has it, its name apart; a predicate is known by its normal form. -/
@[ext]
structure IndexDef where
  table : TableName
  columns : List ColumnName
  predicate : Option String
  deriving DecidableEq, Repr

def Index.definition : Index → IndexDef
  | .unique index => ⟨index.tableName, index.columnNames, none⟩
  | .partialUnique index => ⟨index.tableName, index.columnNames, some (normalize index.where_)⟩

def IndexStmt.apply (db : GoMap String IndexDef) : IndexStmt → GoMap String IndexDef
  | .create name table columns where_ =>
    if (db.lookup name).isSome then db else db.insert name ⟨table, columns, where_.map normalize⟩
  | .drop name => db.erase name

def runIndexes (sqls : List IndexStmt) (db : GoMap String IndexDef) : GoMap String IndexDef := sqls.foldl IndexStmt.apply db

def HasExactly (db : GoMap String IndexDef) (indices : List Index) : Prop :=
  ∀ name d, db.lookup name = some d ↔ ∃ index ∈ indices, index.name = name ∧ index.definition = d

end SqlSchema
end DsApm
