import RenewalDrive.Domain.Managed

/-!
# The registry of domains

The managed domains in the order of the configuration. A name stands for the first
domain that has it.
-/

namespace RenewalDrive

structure Registry where
  domains : List ManagedDomain

namespace Registry

def get? (registry : Registry) (name : String) : Option ManagedDomain :=
  registry.domains.find? fun domain => domain.name = name

def contains (registry : Registry) (name : String) : Bool :=
  (registry.get? name).isSome

/-- The names of the domains that are not managed by hand. -/
def watchedNames (registry : Registry) : List String :=
  (registry.domains.filter fun domain => domain.driveMode ≠ .manual).map (·.name)

end Registry
end RenewalDrive
