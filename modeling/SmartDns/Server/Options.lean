/-
# Listener options

`ServerOpts`: what a listener's `bind` line, or a caller inside the program, says
about a request.
-/
import Mathlib.Data.List.Basic

namespace SmartDns
namespace Server

structure ServerOpts where
  group : Option String := none
  ruleGroup : Option String := none
  noRuleAddr : Option Bool := none
  noRuleNameserver : Option Bool := none
  noSpeedCheck : Option Bool := none
  noCache : Option Bool := none
  noRuleSoa : Option Bool := none
  acl : Option Bool := none
  noDualstackSelection : Option Bool := none
  forceAaaaSoa : Option Bool := none
  forceNoCname : Option Bool := none
  forceHttpsSoa : Option Bool := none
  noServeExpired : Option Bool := none
  isBackground : Bool := false
deriving DecidableEq

end Server
end SmartDns
