import FilterSql.Dialect
import FilterSql.Expr.Parser
import FilterSql.Toml.Document

/-! Settings of an engine, and how they are read from a TOML document. Every setting has a default, and
keys without a meaning are passed over. -/
namespace FilterSql

structure CacheConfig where
  enabled : Bool := true
  /-- How many statements are kept; none at zero. -/
  capacity : Nat := 1024
deriving DecidableEq, Inhabited

def CacheConfig.isActive (c : CacheConfig) : Bool := c.enabled && 0 < c.capacity

structure Config where
  maxDepth : Nat := 128
  maxTokens : Nat := 4096
  cache : CacheConfig := ⟨true, 1024⟩
  dialects : List Dialect := Dialect.all
deriving DecidableEq, Inhabited

inductive ConfigError where
  | unreadable (path reason : String)
  | malformed
  | depthLimit (requested limit : Nat)
deriving DecidableEq

def ConfigError.message : ConfigError → String
  | unreadable path reason => "failed to read config file '" ++ path ++ "': " ++ reason
  | malformed => "failed to parse config"
  | depthLimit requested limit =>
    s!"max_depth {requested} exceeds the supported maximum of {limit}"

namespace Config

def limits (c : Config) : Limits := ⟨c.maxDepth, c.maxTokens⟩

def validate (c : Config) : Except ConfigError Unit :=
  if Limits.depthCeiling < c.maxDepth then .error (.depthLimit c.maxDepth Limits.depthCeiling)
  else .ok ()

def setting (entries : Toml.Entries) (key : String) (read : Toml → Option α) (fallback : α) :
    Option α :=
  match Toml.find? entries key with
  | some v => read v
  | none => some fallback

def natural? : Toml → Option Nat
  | .integer n => if 0 ≤ n then some n.toNat else none
  | _ => none

def boolean? : Toml → Option Bool
  | .boolean b => some b
  | _ => none

/-- A dialect by its key, which may also stand as the one key of a table, over nothing. -/
def dialect? : Toml → Option Dialect
  | .text s => Dialect.ofKey? s
  | .table _ [(key, body)] => if body.isEmpty then Dialect.ofKey? key else none
  | _ => none

def dialects? : Toml → Option (List Dialect)
  | .array items => items.mapM dialect?
  | .tables items => items.mapM fun entries => dialect? (.table .header entries)
  | _ => none

/-- The cache settings as a table, or as a list in the order in which they are declared. A date or time
says nothing about any of them, like a table of other keys. -/
def cache? : Toml → Option CacheConfig
  | .moment => some {}
  | .table _ entries => do
    let enabled ← setting entries "enabled" boolean? true
    let capacity ← setting entries "capacity" natural? 1024
    some ⟨enabled, capacity⟩
  | .array [] => some {}
  | .array [enabled] => do some { enabled := ← boolean? enabled }
  | .array (enabled :: capacity :: _) => do some ⟨← boolean? enabled, ← natural? capacity⟩
  | _ => none

def ofEntries? (entries : Toml.Entries) : Option Config := do
  let maxDepth ← setting entries "max_depth" natural? 128
  let maxTokens ← setting entries "max_tokens" natural? 4096
  let cache ← setting entries "cache" cache? {}
  let dialects ← setting entries "dialects" dialects? Dialect.all
  some ⟨maxDepth, maxTokens, cache, dialects⟩

def ofToml (source : String) : Except ConfigError Config := do
  match (Toml.parse? source).bind ofEntries? with
  | none => .error .malformed
  | some config =>
    config.validate
    .ok config

end Config

end FilterSql
