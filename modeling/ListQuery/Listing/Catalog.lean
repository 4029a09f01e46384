import ListQuery.Listing.Resource

/-! The resources of a small shop: products, orders and labels, with a table of every column type
and an entity whose relation names no column. -/
namespace ListQuery
namespace Catalog

open Sql

def stringColumn (name : String) : ColumnDef := ⟨name, name, .string, false⟩

def intColumn (name : String) (type : IntType) : ColumnDef := ⟨name, name, .int type, false⟩

def productEntity : Entity where
  table := "products"
  columns :=
    [stringColumn "id", stringColumn "name", stringColumn "product_code", stringColumn "status",
      intColumn "sell_price" .int, ⟨"is_featured", "is_featured", .bool, false⟩,
      ⟨"description", "description", .string, true⟩]

def products : Resource NoExtras where
  name := "products"
  entity := productEntity
  base := productEntity.select
  relation := some
    { field := "labels", joinTable := "products_labels", localKey := "product_id",
      foreignKey := "label_id", relatedTable := some "labels" }
  searchColumns := ["name", "product_code"]

def orderEntity : Entity where
  table := "orders"
  columns :=
    [stringColumn "id", stringColumn "order_code", stringColumn "status",
      intColumn "amount_payable" .bigInt]

def orders : Resource OrderExtras where
  name := "orders"
  entity := orderEntity
  base := orderEntity.select
  relation := some
    { field := "labels", joinTable := "orders_labels", localKey := "order_id",
      foreignKey := "label_id" }
  searchColumns := ["order_code"]
  defaults := { sort := [⟨"order_code", .asc⟩] }

def labelEntity : Entity where
  table := "labels"
  columns :=
    [intColumn "id" .int, stringColumn "display_name", ⟨"type", "kind", .string, true⟩]

def labels : Resource LabelExtras where
  name := "labels"
  entity := labelEntity
  base := labelEntity.select

def thingEntity : Entity where
  table := "wide_things"
  columns :=
    [intColumn "id" .int, intColumn "tiny" .tinyInt, intColumn "small" .smallInt,
      intColumn "big" .bigInt, intColumn "utiny" .tinyUnsigned, intColumn "usmall" .smallUnsigned,
      intColumn "uint" .unsigned, intColumn "ubig" .bigUnsigned, ⟨"uid", "uid", .uuid, false⟩,
      ⟨"letter", "letter", .char, false⟩, ⟨"flag", "flag", .bool, false⟩,
      ⟨"code", "code", .string, true⟩]

/-- Things are listed if they are flagged or have no code. -/
def thingBase : Select :=
  thingEntity.select.restrict
    ((Condition.any.add (.test (.compare .eq (.of "wide_things" "flag") (.bool true)))).add
      (.test (.isNull (.of "wide_things" "code"))))

def things : Resource NoExtras where
  name := "wide things"
  entity := thingEntity
  base := thingBase
  relation := some
    { field := "tags", joinTable := "things_tags", localKey := "thing_ubig",
      foreignKey := "tag_id", primaryKey := "ubig" }
  searchColumns := ["code"]
  language := "simple"
  defaults := { page := 2, limit := 5, maxLimit := 20, sort := [⟨"small", .asc⟩, ⟨"id", .desc⟩] }

def ghosts : Resource NoExtras where
  name := "ghosts"
  entity := labelEntity
  base := labelEntity.select
  relation := some
    { field := "spirits", joinTable := "ghosts_spirits", localKey := "ghost_id",
      foreignKey := "spirit_id", primaryKey := "ghost_key" }
  defaults := { limit := 3, sort := [] }

end Catalog
end ListQuery
