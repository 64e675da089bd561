import PlatformConfig.GuardStore

/-!
# The edge guard helper

The locked sections of `acquire` and `release`, and what each of their steps can
do to the shared root.
-/
namespace PlatformConfig.EdgeGuard

open GuardPlan CrashProgram CrashLock GuardStore Prog

def isOwner (o : Owner) : Option Content → Bool
  | some (.owner o') => o' = o
  | _ => false

def acquire (o : Owner) : Section := do
  ask .mkdirConsumed
  let found ← ask (.readConsumed o.planId)
  require found.isNone (.value "plan already consumed; prepare a fresh plan")
  let made ← ask .mkdirActive
  require made .os
  let owned ← ask (.createOwner o)
  require owned .os
  let spent ← ask (.createConsumed o.planId o)
  require spent .os
  return .complete

def release (o : Owner) : Section := do
  let active ← ask .listActive
  require active.isSome .os
  let consumed ← ask .listConsumed
  require consumed.isSome .os
  let owner ← ask .readOwner
  require (isOwner o owner) (.value "guard belongs to another invocation; retained")
  let entry ← ask (.readConsumed o.planId)
  require (isOwner o entry) (.value "consumed plan ownership mismatch; retained")
  let unlinked ← ask .unlinkOwner
  require unlinked .os
  let removed ← ask .rmdirActive
  require removed .os
  return .complete

end PlatformConfig.EdgeGuard
