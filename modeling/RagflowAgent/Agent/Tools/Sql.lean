import RagflowAgent.Agent.Domain.Agentic
import RagflowAgent.Sql.Syntax

/-!
# The SQL tool

The model writes a query and `validateAndScopeSql` decides whether it may be run.  It collects
the tables of the query, apart from those that have the name of a common table expression,
checks tables, columns, functions and literals against the `SqlAllowlist`, and puts in the place
of each table a subquery that keeps the rows of one tenant.

Parsing and printing are those of a library, which is a parameter here: `Sqlglot.parse` is the
parser, and a statement that is returned as a text is given by its tree.
-/

namespace RagflowAgent
namespace Agent

open Sql Expression

/-- What the library does. -/
structure Sqlglot where
  /-- `sqlglot.parse(statement, read="postgres")`, unless it raises a `ParseError`. -/
  parse : String → Option (List Expression)
  /-- `query.find_all(exp.Table)`, in the order in which the library walks through a tree. -/
  findTables : Expression → List (TableName × Option Ident)
  findTables_perm : ∀ e, (findTables e).Perm e.tables

structure SqlAllowlist where
  databaseName : Option String := none
  schemaName : Option String := none
  tables : List (String × List String)
  tenantColumn : String := "tenant_id"
  allowedFunctions : List String :=
    ["avg", "coalesce", "count", "date_trunc", "lower", "max", "min", "sum", "upper"]
  nodup : (tables.map Prod.fst).Nodup
  tables_ne : tables ≠ []
  /-- Something is left of the name when its quotes are taken away. -/
  tenantColumn_ne : String.ofList (tenantColumn.toList.filter fun c => c ≠ '"') ≠ "" := by decide

namespace SqlAllowlist

variable (allowlist : SqlAllowlist)

/-- `allowlist.tenant_column.replace('"', "")`, between quotes. -/
def tenantIdent : Ident where
  text := String.ofList (allowlist.tenantColumn.toList.filter fun c => c ≠ '"')
  quoted := true
  text_ne := allowlist.tenantColumn_ne

/-- `allowed_tables.get(name)`: of several names that differ in case only, the last counts. -/
def allowedTable (host : Host) (name : String) : Option (List String) :=
  (allowlist.tables.reverse.find? fun entry => host.lower entry.1 = name).map Prod.snd

end SqlAllowlist

/-- `if value:` for an optional text. -/
def given (value : Option String) : Option String := value.filter fun s => s ≠ ""

/-- The check of the database, or of the schema, of a table. -/
def qualifierAllowed (host : Host) (allowed : Option String) (qualifier : Option Ident) : Bool :=
  match given allowed with
  | some allowed => host.lower ((qualifier.map Ident.text).getD "") == host.lower allowed
  | none => qualifier.isNone

/-- `sql.alias_or_name`. -/
def aliasOrName (table : TableName × Option Ident) : Ident := table.2.getD table.1.name

namespace SqlTool

variable (sqlglot : Sqlglot) (host : Host) (allowlist : SqlAllowlist)

/-- The name is in `cte_names`. -/
def hidden (query : Expression) (name : TableName) : Bool :=
  (query.cteNames.map fun cte => host.lower cte.text).contains (host.lower name.name.text)

/-- `tables`. -/
def tables (query : Expression) : List (TableName × Option Ident) :=
  (sqlglot.findTables query).filter fun table => !hidden host query table.1

def checkTable (table : TableName × Option Ident) : Except AgentException Unit :=
  if (allowlist.allowedTable host (host.lower table.1.name.text)).isNone then
    .error (.tool "SQL references a table outside the allowlist" "sql_table_denied" 422)
  else if !qualifierAllowed host allowlist.databaseName table.1.catalog then
    .error (.tool "SQL database is not allowed" "sql_database_denied" 422)
  else if !qualifierAllowed host allowlist.schemaName table.1.db then
    .error (.tool "SQL schema is not allowed" "sql_schema_denied" 422)
  else .ok ()

/-- `aliases.get(name)`: of several tables with one alias, the last one counts. -/
def aliased (tables : List (TableName × Option Ident)) (name : String) :
    Option (TableName × Option Ident) :=
  tables.reverse.find? fun table => host.lower (aliasOrName table).text = name

/-- The columns that are allowed for a column with this qualifier. -/
def allowedColumns (tables : List (TableName × Option Ident)) :
    Option Ident → Option (List String)
  | some qualifier => do
    let found ← aliased host tables (host.lower qualifier.text)
    allowlist.allowedTable host (host.lower found.1.name.text)
  | none =>
    match tables with
    | [sole] => allowlist.allowedTable host (host.lower sole.1.name.text)
    | _ => none

def columnAllowed (tables : List (TableName × Option Ident))
    (column : Option Ident × Ident) : Bool :=
  (allowedColumns host allowlist tables column.1).any fun columns =>
    (columns.map host.lower).contains (host.lower column.2.text)

/-- The condition on the tenant. -/
def tenantCondition : Expression :=
  operator "=" [column none none allowlist.tenantIdent, placeholder "_agent_tenant_id"]

/-- What stands in the place of a table. -/
def scopedTable (name : TableName) (aliasName : Option Ident) : Expression :=
  subquery (select false [] [.star] [] [table name none] [tenantCondition allowlist] [])
    (some { aliasOrName (name, aliasName) with quoted := true }) false

mutual

/-- `table.replace(…)` for every table in `tables`. -/
def scope (hidden : TableName → Bool) : Expression → Expression
  | table name aliasName =>
    if hidden name then table name aliasName else scopedTable allowlist name aliasName
  | func name args => func name (scopeList hidden args)
  | operator name args => operator name (scopeList hidden args)
  | modification kind args => modification kind (scopeList hidden args)
  | cte aliasName this => cte aliasName (scope hidden this)
  | subquery this aliasName lateral => subquery (scope hidden this) aliasName lateral
  | join left right on usingNames =>
    join (scope hidden left) (scope hidden right) (scopeList hidden on) usingNames
  | select recursive ctes items into sources conditions clauses =>
    select recursive (scopeList hidden ctes) (scopeList hidden items) (scopeList hidden into)
      (scopeList hidden sources) (scopeList hidden conditions) (scopeList hidden clauses)
  | setOperation recursive ctes left right clauses =>
    setOperation recursive (scopeList hidden ctes) (scope hidden left) (scope hidden right)
      (scopeList hidden clauses)
  | e => e

def scopeList (hidden : TableName → Bool) : List Expression → List Expression
  | [] => []
  | e :: es => scope hidden e :: scopeList hidden es

end

/-- The statement that is returned for a query whose tables are replaced. -/
def limited (query : Expression) : Expression :=
  select false [] [.star] []
    [subquery query (some { text := "_agent_allowed", quoted := true }) false] []
    [operator "LIMIT" [placeholder "_agent_limit"]]

/-- The part of `validate_and_scope_sql` behind the parser. -/
def validateAndScope (query : Expression) : Except AgentException Expression := do
  if query.nodes.any isModification then
    throw (.tool "SQL contains a forbidden operation" "sql_not_read_only" 422)
  let tables := tables sqlglot host query
  if tables.isEmpty then
    throw (.tool "SQL must reference an allowed table" "sql_table_denied" 422)
  tables.forM (checkTable host allowlist)
  if query.nodes.any isStar then
    throw (.tool "SELECT * is not allowed" "sql_column_denied" 422)
  if query.nodes.any isStringLiteral then
    throw (.tool "string values must be supplied as bound parameters" "sql_parameter_required"
      422)
  if query.funcNames.any fun name =>
      !(allowlist.allowedFunctions.map host.lower).contains (host.lower name) then
    throw (.tool "SQL function is outside the allowlist" "sql_function_denied" 422)
  if query.columns.any fun column => !columnAllowed host allowlist tables column then
    throw (.tool "SQL references a column outside the allowlist" "sql_column_denied" 422)
  return limited (scope allowlist (hidden host query) query)

end SqlTool

def validateAndScopeSql (sqlglot : Sqlglot) (host : Host) (allowlist : SqlAllowlist)
    (statement : String) : Except AgentException Expression :=
  match sqlglot.parse statement with
  | none => .error (.tool "SQL parsing failed" "sql_invalid" 422)
  | some [query] =>
    if query.isQuery then SqlTool.validateAndScope sqlglot host allowlist query
    else .error (.tool "only one SELECT or read-only CTE is allowed" "sql_not_read_only" 422)
  | some _ =>
    .error (.tool "only one SELECT or read-only CTE is allowed" "sql_not_read_only" 422)

namespace SqlTool

/-- What a statement that is accepted has passed. -/
structure Accepted (sqlglot : Sqlglot) (host : Host) (allowlist : SqlAllowlist)
    (query : Expression) : Prop where
  noModification : query.nodes.any isModification = false
  tables : ∀ table ∈ tables sqlglot host query, checkTable host allowlist table = .ok ()
  columns : ∀ column ∈ query.columns,
    columnAllowed host allowlist (SqlTool.tables sqlglot host query) column = true

end SqlTool

end Agent
end RagflowAgent
