import PagedCache.Registry

/-!
# The console's lists

The paginated fields of the console, which every configured registry starts from.
-/

namespace PagedCache.Console

/-- The request statuses of a user data request. -/
def requestStatuses : ListPolicy :=
  ⟨"requestStatusRows", "numStatuses", ["query"]⟩

/-- The discoveries of a silo or of a workspace. -/
def discoveries : ListPolicy :=
  ⟨"discoveries", "numDiscoveries", ["query", "statuses"]⟩

/-- The jobs of a workspace. -/
def jobs : ListPolicy :=
  ⟨"jobs", "numJobs", ["resourceId", "jobType", "status", "query"]⟩

/-- The user data requests of a workspace. -/
def requests : ListPolicy :=
  ⟨"requests", "numRequests", []⟩

/-- The data map of a workspace. -/
def dataMap : ListPolicy :=
  ⟨"dataMapRows", "numRows", ["query"]⟩

/-- A data map row is what links a silo, a property, and a data source. -/
def dataMapRow : KeyRule :=
  .composite
    [.mk "siloDefinition" [.scalar "id"],
     .mk "property" [.scalar "id"],
     .mk "dataSource" [.scalar "id"]]

/-- The policy of every paginated field. -/
def policies : List (TypeField × ListPolicy) :=
  [(⟨"Request", "requestStatuses"⟩, requestStatuses),
   (⟨"SiloDefinition", "discoveries"⟩, discoveries),
   (⟨"Workspace", "jobs"⟩, jobs),
   (⟨"Workspace", "discoveries"⟩, discoveries),
   (⟨"Workspace", "requests"⟩, requests),
   (⟨"Workspace", "dataMap"⟩, dataMap)]

/-- Register the console's policies. -/
def register (registry : Registry) : Except CacheError Registry :=
  registry.registerAll policies

/-- The registry of the console. -/
def registry : Except CacheError Registry :=
  (register .empty).map fun registered => registered.setKeyRule "DataMapRow" dataMapRow

end PagedCache.Console
