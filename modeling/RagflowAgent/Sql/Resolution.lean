import RagflowAgent.Sql.Syntax

/-!
# What the names in a statement stand for

A name without qualification that a `WITH` clause around it defines is a common table
expression; any other name in `FROM` is a table of the database.  A column belongs to an item
of the `FROM` clause of its own query or of a query around it.

* `scans` are the places in a statement that read a table, each with whether it reads a common
  table expression and whether the query around it restricts it to the rows with a given value;
* `uses` are the columns that a statement uses, each with the items that it may refer to, the
  innermost query first;
* `ColumnUse.RefersTo` says which table of the database a column may belong to.  A column
  without qualification may belong to any item: which one it is depends on the columns that
  the tables have.

Inside the clauses of a join one sees the two sides of the join.  A subquery in `FROM` sees
only the queries around its own, unless it is `LATERAL`: then it sees what stands left of it.
-/

namespace RagflowAgent
namespace Sql

namespace TableName

/-- The name of a common table expression that is defined here. -/
def isCte (env : List String) (name : TableName) : Bool :=
  name.catalog.isNone && name.db.isNone && env.contains name.name.fold

/-- The name under which an item of `FROM` is known. -/
def exposed (name : TableName) (aliasName : Option Ident) : String :=
  (aliasName.getD name.name).fold

end TableName

namespace Expression

/-- The names that common table expressions define. -/
def defined : List Expression → List String
  | [] => []
  | cte aliasName _ :: ctes => aliasName.fold :: defined ctes
  | _ :: ctes => defined ctes

/-! ## Scans -/

/-- The rows in which a column has the value of a parameter. -/
structure Restriction where
  column : String
  parameter : String

/-- The condition that restricts an item to these rows.  Without qualification the column
belongs to the only table. -/
def Restriction.holds (r : Restriction) (sole : Bool) (exposed : String) : Expression → Bool
  | .operator "=" [.column none qualifier name, .placeholder parameter] =>
    name.fold == r.column && parameter == r.parameter &&
      match qualifier with
      | none => sole
      | some qualifier => qualifier.fold == exposed
  | _ => false

/-- A table is read. -/
structure Scan where
  table : TableName
  exposed : String
  isCte : Bool
  restricted : Bool
  deriving DecidableEq, Repr

/-- There is one item, and it is a table. -/
def isSole : List Expression → Bool
  | [table _ _] => true
  | _ => false

mutual

/-- The tables that are read in an expression.  `conditions` are those of the query whose `FROM`
clause the expression stands in. -/
def scans (r : Restriction) (env : List String) (conditions : List Expression) (sole : Bool) :
    Expression → List Scan
  | table name aliasName =>
    let exposed := name.exposed aliasName
    [⟨name, exposed, name.isCte env, conditions.any (r.holds sole exposed)⟩]
  | func _ args => scansList r env [] false args
  | operator _ args => scansList r env [] false args
  | modification _ args => scansList r env [] false args
  | cte _ this => scans r env [] false this
  | subquery this _ _ => scans r env [] false this
  | join left right on _ =>
    scans r env conditions sole left ++ scans r env conditions sole right ++
      scansList r env [] false on
  | select recursive ctes items _ sources conditions clauses =>
    scansCtes r (if recursive then defined ctes ++ env else env) ctes ++
      scansList r (defined ctes ++ env) [] false items ++
      scansList r (defined ctes ++ env) conditions (isSole sources) sources ++
      scansList r (defined ctes ++ env) [] false conditions ++
      scansList r (defined ctes ++ env) [] false clauses
  | setOperation recursive ctes left right clauses =>
    scansCtes r (if recursive then defined ctes ++ env else env) ctes ++
      scans r (defined ctes ++ env) [] false left ++
      scans r (defined ctes ++ env) [] false right ++
      scansList r (defined ctes ++ env) [] false clauses
  | _ => []

def scansList (r : Restriction) (env : List String) (conditions : List Expression)
    (sole : Bool) : List Expression → List Scan
  | [] => []
  | e :: es => scans r env conditions sole e ++ scansList r env conditions sole es

/-- Each definition sees those before it. -/
def scansCtes (r : Restriction) (env : List String) : List Expression → List Scan
  | [] => []
  | e :: es => scans r env [] false e ++ scansCtes r (defined [e] ++ env) es

end

/-! ## Columns -/

/-- An item of a `FROM` clause.  `table` is the table of the database, if it is one. -/
structure Item where
  exposed : String
  table : Option TableName
  deriving DecidableEq, Repr

/-- The items that an expression in `FROM` brings. -/
def itemsOf (env : List String) : Expression → List Item
  | table name aliasName =>
    [⟨name.exposed aliasName, if name.isCte env then none else some name⟩]
  | subquery _ (some aliasName) _ => [⟨aliasName.fold, none⟩]
  | join left right _ _ => itemsOf env left ++ itemsOf env right
  | _ => []

/-- A column is used.  `levels` are the items it may refer to, query by query. -/
structure ColumnUse where
  schema : Option Ident
  qualifier : Option Ident
  name : Ident
  /-- The column is in the list of `USING`. -/
  isUsing : Bool := false
  levels : List (List Item)
  deriving DecidableEq, Repr

mutual

/-- The columns that are used in an expression.  In a `FROM` clause, `left` are the items left
of it. -/
def uses (env : List String) (levels : List (List Item)) (left : Option (List Item)) :
    Expression → List ColumnUse
  | column schema qualifier name => [{ schema, qualifier, name, levels }]
  | func _ args =>
    usesList env (match left with
      | none => levels
      | some left => left :: levels) args
  | operator _ args => usesList env levels args
  | modification _ args => usesList env levels args
  | cte _ this => uses env levels none this
  | subquery this _ lateral =>
    uses env (match left, lateral with
      | some left, true => left :: levels
      | _, _ => levels) none this
  | join l r on usingNames =>
    let both := itemsOf env l ++ itemsOf env r
    uses env levels (some (left.getD [])) l ++
      uses env levels (some (left.getD [] ++ itemsOf env l)) r ++
      usesList env (both :: levels) on ++
      usingNames.map fun name =>
        { schema := none, qualifier := none, name, isUsing := true, levels := [both] }
  | select recursive ctes items _ sources conditions clauses =>
    let level := sources.flatMap (itemsOf (defined ctes ++ env))
    usesCtes (if recursive then defined ctes ++ env else env) levels ctes ++
      usesList (defined ctes ++ env) (level :: levels) items ++
      usesSources (defined ctes ++ env) levels [] sources ++
      usesList (defined ctes ++ env) (level :: levels) conditions ++
      usesList (defined ctes ++ env) (level :: levels) clauses
  | setOperation recursive ctes l r clauses =>
    usesCtes (if recursive then defined ctes ++ env else env) levels ctes ++
      uses (defined ctes ++ env) levels none l ++ uses (defined ctes ++ env) levels none r ++
      usesList (defined ctes ++ env) levels clauses
  | _ => []

def usesList (env : List String) (levels : List (List Item)) :
    List Expression → List ColumnUse
  | [] => []
  | e :: es => uses env levels none e ++ usesList env levels es

def usesCtes (env : List String) (levels : List (List Item)) :
    List Expression → List ColumnUse
  | [] => []
  | e :: es => uses env levels none e ++ usesCtes (defined [e] ++ env) levels es

def usesSources (env : List String) (levels : List (List Item)) (left : List Item) :
    List Expression → List ColumnUse
  | [] => []
  | e :: es =>
    uses env levels (some left) e ++ usesSources env levels (left ++ itemsOf env e) es

end

/-- The tables of the database to which a column may belong.  With a qualifier, the first query
that has an item of this name decides. -/
def ColumnUse.RefersTo (use : ColumnUse) (name : TableName) : Prop :=
  match use.qualifier, use.schema with
  | none, _ => ∃ level ∈ use.levels, ∃ item ∈ level, item.table = some name
  | some qualifier, none =>
    ∃ item, use.levels.findSome? (fun level => level.find? fun item =>
      item.exposed = qualifier.fold) = some item ∧ item.table = some name
  | some qualifier, some schema =>
    ∃ level ∈ use.levels, ∃ item ∈ level, item.table = some name ∧
      item.exposed = qualifier.fold ∧ name.db.map Ident.fold = some schema.fold

/-- Whatever a column refers to is an item that it can see. -/
theorem ColumnUse.RefersTo.exists_item {use : ColumnUse} {name : TableName}
    (h : use.RefersTo name) : ∃ level ∈ use.levels, ∃ item ∈ level, item.table = some name ∧
      ∀ qualifier, use.qualifier = some qualifier → item.exposed = qualifier.fold := by
  unfold RefersTo at h
  split at h
  · rename_i hqualifier
    obtain ⟨level, hlevel, item, hitem, htable⟩ := h
    refine ⟨level, hlevel, item, hitem, htable, fun qualifier h => ?_⟩
    rw [hqualifier] at h
    cases h
  · rename_i qualifier hqualifier hschema
    obtain ⟨item, hfind, htable⟩ := h
    obtain ⟨level, hlevel, hitem⟩ := List.exists_of_findSome?_eq_some hfind
    refine ⟨level, hlevel, item, List.mem_of_find?_eq_some hitem, htable, fun q h => ?_⟩
    cases hqualifier.symm.trans h
    have hexposed := List.find?_some hitem
    exact of_decide_eq_true hexposed
  · rename_i qualifier schema hqualifier hschema
    obtain ⟨level, hlevel, item, hitem, htable, hexposed, -⟩ := h
    refine ⟨level, hlevel, item, hitem, htable, fun q h => ?_⟩
    cases hqualifier.symm.trans h
    exact hexposed

/-! ## Scans are nodes -/

/-- The scan is a node of the tree. -/
def Scan.IsNode (s : Scan) (nodes : List Expression) : Prop :=
  ∃ aliasName, Expression.table s.table aliasName ∈ nodes ∧ s.exposed = s.table.exposed aliasName

theorem Scan.IsNode.mono {s : Scan} {ns ns' : List Expression} (h : s.IsNode ns)
    (hsub : ns ⊆ ns') : s.IsNode ns' :=
  let ⟨aliasName, hnode, hexposed⟩ := h
  ⟨aliasName, hsub hnode, hexposed⟩

section Scans

variable {r : Restriction}

mutual

/-- **What is read is a table that stands in the tree.** -/
theorem isNode_of_mem_scans {env : List String} {conditions : List Expression} {sole : Bool} :
    (e : Expression) → ∀ s ∈ scans r env conditions sole e, s.IsNode e.nodes
  | table name aliasName => by
    intro s hs
    rw [scans, List.mem_singleton] at hs
    rw [hs]
    exact ⟨aliasName, mem_nodes_self _, rfl⟩
  | column _ _ _ => by simp [scans]
  | .star => by simp [scans]
  | literal _ _ => by simp [scans]
  | placeholder _ => by simp [scans]
  | func _ args => fun s hs =>
    (isNode_of_mem_scansList args s hs).mono (List.subset_cons_self _ _)
  | operator _ args => fun s hs =>
    (isNode_of_mem_scansList args s hs).mono (List.subset_cons_self _ _)
  | modification _ args => fun s hs =>
    (isNode_of_mem_scansList args s hs).mono (List.subset_cons_self _ _)
  | cte _ this => fun s hs => (isNode_of_mem_scans this s hs).mono (List.subset_cons_self _ _)
  | subquery this _ _ => fun s hs =>
    (isNode_of_mem_scans this s hs).mono (List.subset_cons_self _ _)
  | join left right on _ => by
    intro s hs
    rw [scans, List.mem_append, List.mem_append] at hs
    rcases hs with (hs | hs) | hs
    · exact (isNode_of_mem_scans left s hs).mono fun n hn => by simp [nodes, hn]
    · exact (isNode_of_mem_scans right s hs).mono fun n hn => by simp [nodes, hn]
    · exact (isNode_of_mem_scansList on s hs).mono fun n hn => by simp [nodes, hn]
  | select _ ctes items _ sources conditions clauses => by
    intro s hs
    rw [scans] at hs
    simp only [List.mem_append] at hs
    rcases hs with (((hs | hs) | hs) | hs) | hs
    · exact (isNode_of_mem_scansCtes ctes s hs).mono fun n hn => by simp [nodes, hn]
    · exact (isNode_of_mem_scansList items s hs).mono fun n hn => by simp [nodes, hn]
    · exact (isNode_of_mem_scansList sources s hs).mono fun n hn => by simp [nodes, hn]
    · exact (isNode_of_mem_scansList conditions s hs).mono fun n hn => by simp [nodes, hn]
    · exact (isNode_of_mem_scansList clauses s hs).mono fun n hn => by simp [nodes, hn]
  | setOperation _ ctes left right clauses => by
    intro s hs
    rw [scans] at hs
    simp only [List.mem_append] at hs
    rcases hs with ((hs | hs) | hs) | hs
    · exact (isNode_of_mem_scansCtes ctes s hs).mono fun n hn => by simp [nodes, hn]
    · exact (isNode_of_mem_scans left s hs).mono fun n hn => by simp [nodes, hn]
    · exact (isNode_of_mem_scans right s hs).mono fun n hn => by simp [nodes, hn]
    · exact (isNode_of_mem_scansList clauses s hs).mono fun n hn => by simp [nodes, hn]

theorem isNode_of_mem_scansList {env : List String} {conditions : List Expression}
    {sole : Bool} :
    (es : List Expression) → ∀ s ∈ scansList r env conditions sole es, s.IsNode (nodesList es)
  | [] => by simp [scansList]
  | e :: es => by
    intro s hs
    rw [scansList, List.mem_append] at hs
    rcases hs with hs | hs
    · exact (isNode_of_mem_scans e s hs).mono (List.subset_append_left _ _)
    · exact (isNode_of_mem_scansList es s hs).mono (List.subset_append_right _ _)

theorem isNode_of_mem_scansCtes {env : List String} :
    (es : List Expression) → ∀ s ∈ scansCtes r env es, s.IsNode (nodesList es)
  | [] => by simp [scansCtes]
  | e :: es => by
    intro s hs
    rw [scansCtes, List.mem_append] at hs
    rcases hs with hs | hs
    · exact (isNode_of_mem_scans e s hs).mono (List.subset_append_left _ _)
    · exact (isNode_of_mem_scansCtes es s hs).mono (List.subset_append_right _ _)

end

end Scans

/-! ## Columns are nodes -/

mutual

/-- **A column that is used stands in the tree**, unless it is in the list of `USING`. -/
theorem mem_nodes_of_mem_uses {env : List String} {levels : List (List Item)}
    {left : Option (List Item)} :
    (e : Expression) → ∀ u ∈ uses env levels left e, u.isUsing = false →
      column u.schema u.qualifier u.name ∈ e.nodes
  | table _ _ => by simp [uses]
  | column _ _ _ => by
    intro u hu _
    rw [uses, List.mem_singleton] at hu
    rw [hu]
    exact mem_nodes_self _
  | .star => by simp [uses]
  | literal _ _ => by simp [uses]
  | placeholder _ => by simp [uses]
  | func _ args => fun u hu h => List.mem_cons_of_mem _ (mem_nodes_of_mem_usesList args u hu h)
  | operator _ args => fun u hu h =>
    List.mem_cons_of_mem _ (mem_nodes_of_mem_usesList args u hu h)
  | modification _ args => fun u hu h =>
    List.mem_cons_of_mem _ (mem_nodes_of_mem_usesList args u hu h)
  | cte _ this => fun u hu h => List.mem_cons_of_mem _ (mem_nodes_of_mem_uses this u hu h)
  | subquery this _ _ => fun u hu h => List.mem_cons_of_mem _ (mem_nodes_of_mem_uses this u hu h)
  | join l r on _ => by
    intro u hu h
    simp only [uses, List.mem_append, List.mem_map] at hu
    rcases hu with ((hu | hu) | hu) | ⟨name, -, rfl⟩
    · simp [nodes, mem_nodes_of_mem_uses l u hu h]
    · simp [nodes, mem_nodes_of_mem_uses r u hu h]
    · simp [nodes, mem_nodes_of_mem_usesList on u hu h]
    · cases h
  | select _ ctes items _ sources conditions clauses => by
    intro u hu h
    simp only [uses, List.mem_append] at hu
    rcases hu with (((hu | hu) | hu) | hu) | hu
    · simp [nodes, mem_nodes_of_mem_usesCtes ctes u hu h]
    · simp [nodes, mem_nodes_of_mem_usesList items u hu h]
    · simp [nodes, mem_nodes_of_mem_usesSources sources u hu h]
    · simp [nodes, mem_nodes_of_mem_usesList conditions u hu h]
    · simp [nodes, mem_nodes_of_mem_usesList clauses u hu h]
  | setOperation _ ctes l r clauses => by
    intro u hu h
    simp only [uses, List.mem_append] at hu
    rcases hu with ((hu | hu) | hu) | hu
    · simp [nodes, mem_nodes_of_mem_usesCtes ctes u hu h]
    · simp [nodes, mem_nodes_of_mem_uses l u hu h]
    · simp [nodes, mem_nodes_of_mem_uses r u hu h]
    · simp [nodes, mem_nodes_of_mem_usesList clauses u hu h]

theorem mem_nodes_of_mem_usesList {env : List String} {levels : List (List Item)} :
    (es : List Expression) → ∀ u ∈ usesList env levels es, u.isUsing = false →
      column u.schema u.qualifier u.name ∈ nodesList es
  | [] => by simp [usesList]
  | e :: es => by
    intro u hu h
    rw [usesList, List.mem_append] at hu
    rcases hu with hu | hu
    · exact List.mem_append_left _ (mem_nodes_of_mem_uses e u hu h)
    · exact List.mem_append_right _ (mem_nodes_of_mem_usesList es u hu h)

theorem mem_nodes_of_mem_usesCtes {env : List String} {levels : List (List Item)} :
    (es : List Expression) → ∀ u ∈ usesCtes env levels es, u.isUsing = false →
      column u.schema u.qualifier u.name ∈ nodesList es
  | [] => by simp [usesCtes]
  | e :: es => by
    intro u hu h
    rw [usesCtes, List.mem_append] at hu
    rcases hu with hu | hu
    · exact List.mem_append_left _ (mem_nodes_of_mem_uses e u hu h)
    · exact List.mem_append_right _ (mem_nodes_of_mem_usesCtes es u hu h)

theorem mem_nodes_of_mem_usesSources {env : List String} {levels : List (List Item)}
    {left : List Item} :
    (es : List Expression) → ∀ u ∈ usesSources env levels left es, u.isUsing = false →
      column u.schema u.qualifier u.name ∈ nodesList es
  | [] => by simp [usesSources]
  | e :: es => by
    intro u hu h
    rw [usesSources, List.mem_append] at hu
    rcases hu with hu | hu
    · exact List.mem_append_left _ (mem_nodes_of_mem_uses e u hu h)
    · exact List.mem_append_right _ (mem_nodes_of_mem_usesSources es u hu h)

end

/-! ## Items are scans -/

/-- If the item is a table of the database, it is one of the scans. -/
def Item.IsScan (S : List Scan) (item : Item) : Prop :=
  ∀ name, item.table = some name →
    ∃ s ∈ S, s.table = name ∧ s.exposed = item.exposed ∧ s.isCte = false

/-- All items are scans, if they are tables of the database. -/
def AreScans (S : List Scan) (levels : List (List Item)) : Prop :=
  ∀ level ∈ levels, ∀ item ∈ level, item.IsScan S

section Items

variable {r : Restriction} {S : List Scan}

theorem areScans_nil : AreScans S [] := by simp [AreScans]

theorem AreScans.cons {level : List Item} {levels : List (List Item)}
    (hlevel : ∀ item ∈ level, item.IsScan S) (hlevels : AreScans S levels) :
    AreScans S (level :: levels) := by
  intro level' hmem
  rcases List.mem_cons.1 hmem with rfl | hmem
  · exact hlevel
  · exact hlevels level' hmem

theorem isScan_append {level level' : List Item} (h : ∀ item ∈ level, item.IsScan S)
    (h' : ∀ item ∈ level', item.IsScan S) : ∀ item ∈ level ++ level', item.IsScan S := by
  intro item hitem
  rcases List.mem_append.1 hitem with hitem | hitem
  · exact h item hitem
  · exact h' item hitem

/-- What an expression brings to a `FROM` clause, it reads. -/
theorem isScan_of_mem_itemsOf {env : List String} {conditions : List Expression} {sole : Bool} :
    (e : Expression) → scans r env conditions sole e ⊆ S → ∀ item ∈ itemsOf env e, item.IsScan S
  | table name aliasName, hsub => by
    intro item hitem name' hname
    rw [itemsOf, List.mem_singleton] at hitem
    subst hitem
    have hscan : _ ∈ S := hsub (by rw [scans]; exact List.mem_singleton_self _)
    refine ⟨_, hscan, ?_⟩
    dsimp only at hname ⊢
    split at hname
    · cases hname
    · rename_i hcte
      cases hname
      exact ⟨rfl, rfl, Bool.eq_false_iff.2 hcte⟩
  | subquery _ (some _) _, _ => by
    intro item hitem name hname
    rw [itemsOf, List.mem_singleton] at hitem
    subst hitem
    cases hname
  | join left right on _, hsub => by
    rw [scans, List.append_subset, List.append_subset] at hsub
    rw [itemsOf]
    exact isScan_append (isScan_of_mem_itemsOf left hsub.1.1)
      (isScan_of_mem_itemsOf right hsub.1.2)
  | subquery _ none _, _ => by simp [itemsOf]
  | column _ _ _, _ => by simp [itemsOf]
  | .star, _ => by simp [itemsOf]
  | literal _ _, _ => by simp [itemsOf]
  | placeholder _, _ => by simp [itemsOf]
  | func _ _, _ => by simp [itemsOf]
  | operator _ _, _ => by simp [itemsOf]
  | modification _ _, _ => by simp [itemsOf]
  | cte _ _, _ => by simp [itemsOf]
  | select _ _ _ _ _ _ _, _ => by simp [itemsOf]
  | setOperation _ _ _ _ _, _ => by simp [itemsOf]

/-- The items of a `FROM` clause. -/
theorem isScan_of_mem_flatMap {env : List String} {conditions : List Expression} {sole : Bool}
    {sources : List Expression} (hsub : scansList r env conditions sole sources ⊆ S) :
    ∀ item ∈ sources.flatMap (itemsOf env), item.IsScan S := by
  induction sources with
  | nil => simp
  | cons e es ih =>
    rw [scansList, List.append_subset] at hsub
    rw [List.flatMap_cons]
    exact isScan_append (isScan_of_mem_itemsOf e hsub.1) (ih hsub.2)

mutual

/-- **The items that a column can see are scans**, if those around the expression are. -/
theorem areScans_of_mem_uses {env : List String} {levels : List (List Item)}
    {left : Option (List Item)} {conditions : List Expression} {sole : Bool}
    (hlevels : AreScans S levels) (hleft : AreScans S left.toList) :
    (e : Expression) → scans r env conditions sole e ⊆ S →
      ∀ u ∈ uses env levels left e, AreScans S u.levels
  | table _ _, _ => by simp [uses]
  | column _ _ _, _ => by
    intro u hu
    rw [uses, List.mem_singleton] at hu
    rw [hu]
    exact hlevels
  | .star, _ => by simp [uses]
  | literal _ _, _ => by simp [uses]
  | placeholder _, _ => by simp [uses]
  | func _ args, hsub => by
    cases left with
    | none => exact areScans_of_mem_usesList hlevels args hsub
    | some left =>
      exact areScans_of_mem_usesList (hlevels.cons (hleft left (by simp))) args hsub
  | operator _ args, hsub => areScans_of_mem_usesList hlevels args hsub
  | modification _ args, hsub => areScans_of_mem_usesList hlevels args hsub
  | cte _ this, hsub => areScans_of_mem_uses hlevels areScans_nil this hsub
  | subquery this _ lateral, hsub => by
    have hnone : AreScans S (none : Option (List Item)).toList := areScans_nil
    rcases left with _ | left
    · exact areScans_of_mem_uses hlevels hnone this hsub
    · cases lateral with
      | true => exact areScans_of_mem_uses (hlevels.cons (hleft left (by simp))) hnone this hsub
      | false => exact areScans_of_mem_uses hlevels hnone this hsub
  | join l rhs on usingNames, hsub => by
    rw [scans, List.append_subset, List.append_subset] at hsub
    obtain ⟨⟨hl, hr⟩, hon⟩ := hsub
    have hl' := isScan_of_mem_itemsOf l hl
    have hboth := isScan_append hl' (isScan_of_mem_itemsOf rhs hr)
    have hleft' : ∀ item ∈ left.getD [], item.IsScan S := by
      cases left with
      | none => simp
      | some left => exact hleft left (by simp)
    have hsome : ∀ level : List Item, (∀ item ∈ level, item.IsScan S) →
        AreScans S (some level).toList := fun level h => AreScans.cons h areScans_nil
    intro u hu
    simp only [uses, List.mem_append, List.mem_map] at hu
    rcases hu with ((hu | hu) | hu) | ⟨name, -, rfl⟩
    · exact areScans_of_mem_uses hlevels (hsome _ hleft') l hl u hu
    · exact areScans_of_mem_uses hlevels (hsome _ (isScan_append hleft' hl')) rhs hr u hu
    · exact areScans_of_mem_usesList (hlevels.cons hboth) on hon u hu
    · exact AreScans.cons hboth areScans_nil
  | select _ ctes items _ sources conditions clauses, hsub => by
    rw [scans] at hsub
    simp only [List.append_subset] at hsub
    obtain ⟨⟨⟨⟨hctes, hitems⟩, hsources⟩, hconditions⟩, hclauses⟩ := hsub
    have hinner := hlevels.cons (isScan_of_mem_flatMap hsources)
    intro u hu
    simp only [uses, List.mem_append] at hu
    rcases hu with (((hu | hu) | hu) | hu) | hu
    · exact areScans_of_mem_usesCtes hlevels ctes hctes u hu
    · exact areScans_of_mem_usesList hinner items hitems u hu
    · exact areScans_of_mem_usesSources hlevels (by simp) sources hsources u hu
    · exact areScans_of_mem_usesList hinner conditions hconditions u hu
    · exact areScans_of_mem_usesList hinner clauses hclauses u hu
  | setOperation _ ctes l rhs clauses, hsub => by
    rw [scans] at hsub
    simp only [List.append_subset] at hsub
    obtain ⟨⟨⟨hctes, hl⟩, hr⟩, hclauses⟩ := hsub
    have hnone : AreScans S (none : Option (List Item)).toList := areScans_nil
    intro u hu
    simp only [uses, List.mem_append] at hu
    rcases hu with ((hu | hu) | hu) | hu
    · exact areScans_of_mem_usesCtes hlevels ctes hctes u hu
    · exact areScans_of_mem_uses hlevels hnone l hl u hu
    · exact areScans_of_mem_uses hlevels hnone rhs hr u hu
    · exact areScans_of_mem_usesList hlevels clauses hclauses u hu

theorem areScans_of_mem_usesList {env : List String} {levels : List (List Item)}
    {conditions : List Expression} {sole : Bool} (hlevels : AreScans S levels) :
    (es : List Expression) → scansList r env conditions sole es ⊆ S →
      ∀ u ∈ usesList env levels es, AreScans S u.levels
  | [], _ => by simp [usesList]
  | e :: es, hsub => by
    rw [scansList, List.append_subset] at hsub
    intro u hu
    rw [usesList, List.mem_append] at hu
    rcases hu with hu | hu
    · exact areScans_of_mem_uses hlevels areScans_nil e hsub.1 u hu
    · exact areScans_of_mem_usesList hlevels es hsub.2 u hu

theorem areScans_of_mem_usesCtes {env : List String} {levels : List (List Item)}
    (hlevels : AreScans S levels) :
    (es : List Expression) → scansCtes r env es ⊆ S →
      ∀ u ∈ usesCtes env levels es, AreScans S u.levels
  | [], _ => by simp [usesCtes]
  | e :: es, hsub => by
    rw [scansCtes, List.append_subset] at hsub
    intro u hu
    rw [usesCtes, List.mem_append] at hu
    rcases hu with hu | hu
    · exact areScans_of_mem_uses hlevels areScans_nil e hsub.1 u hu
    · exact areScans_of_mem_usesCtes hlevels es hsub.2 u hu

theorem areScans_of_mem_usesSources {env : List String} {levels : List (List Item)}
    {left : List Item} {conditions : List Expression} {sole : Bool}
    (hlevels : AreScans S levels) (hleft : ∀ item ∈ left, item.IsScan S) :
    (es : List Expression) → scansList r env conditions sole es ⊆ S →
      ∀ u ∈ usesSources env levels left es, AreScans S u.levels
  | [], _ => by simp [usesSources]
  | e :: es, hsub => by
    rw [scansList, List.append_subset] at hsub
    intro u hu
    rw [usesSources, List.mem_append] at hu
    rcases hu with hu | hu
    · have hsome : AreScans S (some left).toList := AreScans.cons hleft areScans_nil
      exact areScans_of_mem_uses hlevels hsome e hsub.1 u hu
    · exact areScans_of_mem_usesSources hlevels
        (isScan_append hleft (isScan_of_mem_itemsOf e hsub.1)) es hsub.2 u hu

end

/-- **A table to which a column may belong is read in the statement**, under the name of its
qualifier. -/
theorem exists_scan_of_refersTo {e : Expression} {u : ColumnUse} {name : TableName}
    (hu : u ∈ uses [] [] none e) (h : u.RefersTo name) :
    ∃ s ∈ scans r [] [] false e, s.table = name ∧ s.isCte = false ∧
      ∀ qualifier, u.qualifier = some qualifier → s.exposed = qualifier.fold := by
  obtain ⟨level, hlevel, item, hitem, htable, hqualifier⟩ := h.exists_item
  have hscans : AreScans (scans r [] [] false e) u.levels :=
    areScans_of_mem_uses areScans_nil areScans_nil e (List.Subset.refl _) u hu
  obtain ⟨s, hs, hname, hexposed, hcte⟩ := hscans level hlevel item hitem name htable
  refine ⟨s, hs, hname, hcte, fun qualifier h => ?_⟩
  rw [hexposed]
  exact hqualifier qualifier h

end Items

end Expression

end Sql
end RagflowAgent
