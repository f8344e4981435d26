/-
Resolving all dependencies of a manifest in its configurations.

All requests are made before the first one is resolved: a configuration that is not
declared, a value that does not fit its attribute and a selector that cannot be read
fail the whole.  After that every pair of a configuration and a dependency is
resolved for itself, and a failure stays in its own `ResolutionEntry`.
-/
import VariantSelection.Manifest.Schema
import VariantSelection.Session.Loading

namespace VariantSelection

/-- Why requests cannot be made. -/
inductive RequestError
  | configuration (cause : UnknownConfiguration)
  | attribute (cause : AttributeError)
  | selector (cause : SelectorError)
  deriving DecidableEq

def RequestError.message : RequestError → String
  | .configuration cause => cause.message
  | .attribute cause => cause.message
  | .selector cause => cause.message

/-- A dependency of one configuration with its request. -/
structure ResolutionJob where
  configuration : String
  dependency : String
  module : Coordinate
  request : Request
  deriving DecidableEq

/-- The request of a dependency, with the attributes of the configuration that
consumes it. -/
def DependencySpec.request (d : DependencySpec) (consumer : String) (attributes : AttributeSet) :
    Except SelectorError Request := do
  let capabilities ← d.capabilities.mapM CapabilitySelector.parse
  return { consumer, attributes, capabilities, variant := d.variant }

namespace Manifest

/-- The jobs of one configuration, one for each dependency, by name. -/
def configurationJobs (m : Manifest) (r : Registry) (configuration : String × ConfigurationSpec) :
    Except RequestError (List ResolutionJob) := do
  let attributes ← (r.coerceSet configuration.2.attributes).mapError .attribute
  m.dependencies.entries.mapM fun d => do
    let request ← (d.2.request configuration.1 attributes).mapError .selector
    return ⟨configuration.1, d.1, d.2.module, request⟩

/-- The jobs of all configurations, or of the one that is named. -/
def jobs (m : Manifest) (r : Registry) (only : Option String) :
    Except RequestError (List ResolutionJob) := do
  let configurations ← (m.selected only).mapError .configuration
  let lists ← configurations.mapM (m.configurationJobs r)
  return lists.flatten

end Manifest

/-- The outcome of one job. -/
structure ResolutionEntry where
  configuration : String
  dependency : String
  module : Coordinate
  outcome : Except SelectionError Resolved

namespace ResolutionEntry

/-- Whether nothing was selected. -/
def isFailure (e : ResolutionEntry) : Bool :=
  match e.outcome with
  | .ok _ => false
  | .error _ => true

end ResolutionEntry

/-- The outcomes of all jobs, by configuration and then by dependency. -/
structure Resolution where
  entries : List ResolutionEntry

namespace Resolution

/-- The entries in which nothing was selected. -/
def failures (r : Resolution) : List ResolutionEntry := r.entries.filter ResolutionEntry.isFailure

def isSuccess (r : Resolution) : Bool := r.failures.isEmpty

end Resolution

namespace Session

/-- Resolves one job. -/
def run (s : Session) (job : ResolutionJob) : ResolutionEntry :=
  ⟨job.configuration, job.dependency, job.module, s.resolve job.module job.request⟩

/-- Resolves every dependency in every configuration, or only in the one that is named. -/
def resolveAll (s : Session) (m : Manifest) (only : Option String) :
    Except RequestError Resolution := do
  let jobs ← m.jobs s.registry only
  return ⟨jobs.map s.run⟩

end Session

end VariantSelection
