/-!
# How refused settings are reported

Every report of settings that are refused begins alike.
-/

namespace Leasehold.Settings

/-- The report that settings are refused for a reason. -/
def refusal (reason : String) : String := "invalid configuration: " ++ reason

end Leasehold.Settings
