import FilterSql.Catalog.Basic

/-! The catalogs that come with the library. -/
namespace FilterSql

namespace Field

def visibility : Field :=
  .ofColumn "visibility"
    (.enum (.ofSteps "visibility" [.variant "PUBLIC", .variant "PROTECTED", .variant "PRIVATE"]))
    "visibility"

def creator : Field := .ofColumn "creator_id" (.number .int32) "creator_id"

/-- Seconds since the epoch; MySQL keeps a date and time instead and has to be asked for the seconds. -/
def moment (table column : String) : Field :=
  (Field.ofColumn column .timestamp column).withOverride .mysql
    ("UNIX_TIMESTAMP(`" ++ table ++ "`.`" ++ column ++ "`)")

def searchable (column : String) (functions : List StringFunction) : Field :=
  (Field.ofColumn column .text column).withFunctions functions

end Field

namespace Catalog

def standardTable : Entity → String
  | .note => "memo"
  | .classroom => "class"
  | .savedQuery => "shortcut"

def standardFields : Entity → List Field
  | .note =>
    [.searchable "content" StringFunction.all,
     .ofJsonArray "tag" "payload" ["tags"],
     .ofColumn "pinned" .boolean "pinned",
     .ofStatusFlag "archived" "row_status" "ARCHIVED",
     .visibility,
     .creator,
     .moment "memo" "created_ts",
     .moment "memo" "updated_ts",
     .ofJson "difficulty" (.number .int32) "payload" ["difficulty"],
     .ofJson "property.has_link" .boolean "payload" ["property", "hasLink"],
     .ofJson "property.has_task_list" .boolean "payload" ["property", "hasTaskList"]]
  | .classroom =>
    [.searchable "uid" [.startsWith],
     .searchable "name" StringFunction.all,
     .searchable "description" [.contains],
     .creator,
     .visibility,
     .moment "class" "created_ts",
     .moment "class" "updated_ts"]
  | .savedQuery =>
    [.searchable "title" StringFunction.all,
     .searchable "filter" [.contains],
     .creator,
     .moment "shortcut" "created_ts"]

def standard (entity : Entity) : Catalog :=
  let table := standardTable entity
  .of entity table 1 ((standardFields entity).map fun f => { f with table })

theorem build_standardFields (entity : Entity) :
    build entity (standardTable entity) 1 (standardFields entity) = .ok (standard entity) := by
  cases entity <;> rfl

end Catalog

end FilterSql
