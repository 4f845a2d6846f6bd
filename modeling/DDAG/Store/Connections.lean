import DDAG.Secret.Envelope

/-!
# The table of connections

The table `database_connections` with `GetConnection`, `UpdateConnection` and
`SetConnectionSecret` of `internal/store/catalog.go`.  An update changes the rows with the id, unless
the schema does not allow it.  A trigger sets the time of the update.
-/

namespace DDAG.Store

open Secret (UUID)

structure DatabaseConnection where
  id : UUID
  name : Text
  databaseType : Text
  host : Text
  port : Int
  databaseName : Text
  serviceName : Text
  schemaName : Text
  username : Text
  secretRef : Option UUID
  sslMode : Text
  minPoolSize : Int
  maxPoolSize : Int
  connectionTimeoutMS : Int
  queryTimeoutMS : Int
  maxConnLifetimeMS : Int
  maxConnIdleMS : Int
  environment : Text
  status : Text
  /-- A slice that is nil is written as NULL. -/
  tags : Option (List Text)
  configVersion : Int
  lastHealthStatus : Text
  lastHealthAt : Option Int
  createdBy : Option UUID
  createdAt : Int
  updatedAt : Int
deriving DecidableEq

abbrev Connections := List DatabaseConnection

inductive StoreError where
  | notFound
  /-- Any other error of the database. -/
  | failed
deriving DecidableEq

def Connections.getConnection (rows : Connections) (id : UUID) : Except StoreError DatabaseConnection :=
  match rows.find? (·.id = id) with
  | none => .error .notFound
  | some row => .ok row

/-- `UPDATE .. WHERE id=$1`, with the version and the time every update sets. -/
def Connections.update (rows : Connections) (id : UUID) (now : Int)
    (set : DatabaseConnection → DatabaseConnection) : Connections :=
  rows.map fun row =>
    if row.id = id then { set row with configVersion := row.configVersion + 1, updatedAt := now } else row

/-- The columns `UpdateConnection` sets. -/
def DatabaseConnection.withColumns (row c : DatabaseConnection) : DatabaseConnection :=
  { row with
    name := c.name
    databaseType := c.databaseType
    host := c.host
    port := c.port
    databaseName := c.databaseName
    serviceName := c.serviceName
    schemaName := c.schemaName
    username := c.username
    sslMode := c.sslMode
    minPoolSize := c.minPoolSize
    maxPoolSize := c.maxPoolSize
    connectionTimeoutMS := c.connectionTimeoutMS
    queryTimeoutMS := c.queryTimeoutMS
    maxConnLifetimeMS := c.maxConnLifetimeMS
    maxConnIdleMS := c.maxConnIdleMS
    environment := c.environment
    status := c.status
    tags := c.tags }

/-- The constraints of the schema on the columns of `UpdateConnection`: the name is unique, and some
columns have checks or are not null. -/
def Connections.allows (rows : Connections) (c : DatabaseConnection) : Bool :=
  !rows.any (fun row => row.id ≠ c.id && row.name = c.name) &&
    ["postgres".toList, "mysql".toList, "oracle".toList, "sqlserver".toList].contains c.databaseType &&
    ["dev".toList, "staging".toList, "prod".toList].contains c.environment &&
    ["active".toList, "inactive".toList].contains c.status &&
    c.tags.isSome

def Connections.updateConnection (rows : Connections) (c : DatabaseConnection) (now : Int) :
    Except StoreError Connections :=
  if !rows.any (·.id = c.id) then .error .notFound
  else if !rows.allows c then .error .failed
  else .ok (rows.update c.id now (·.withColumns c))

/-- No error if there is no such row. -/
def Connections.setConnectionSecret (rows : Connections) (id secretRef : UUID) (now : Int) : Connections :=
  rows.update id now fun row => { row with secretRef := some secretRef }

theorem Connections.getConnection_eq_ok {rows : Connections} {id : UUID} {row : DatabaseConnection} :
    rows.getConnection id = .ok row ↔ rows.find? (·.id = id) = some row := by
  unfold Connections.getConnection
  split
  next h => simp [h]
  next h => simp [h]

end DDAG.Store
