import Mathlib.Tactic.Common

/-!
# Status codes and limits of the dataplane library
-/

namespace NetL7

/-- The values of `nlm_status` that the modelled functions return. -/
inductive NlmStatus
  | ok
  | endOfJob
  | endAnchored
  | busy
  | outOfMemory
  | outOfDeviceMemory
  | outOfPacketMemory
  | outOfDdrMemory
  | inputFifoFull
  | invalidArgument
  | invalidDeviceConfig
  | invalidFlow
  | invalidDatabaseId
  | invalidDatabaseVersion
  | invalidDatabaseSize
  | invalidDatabaseChecksum
  | invalidDatabaseFileMagic
  | invalidGroupid
  | invalidPacketSize
  | invalidJob
  | invalidRingId
  | invalidThreadId
  | incorrectAccess
  | loaderInProgress
  | loaderBlockPauseTimeout
  | databaseUnloaded
  | deviceFailure
  | deviceUninitialized
  | excessDeviceAttach
  | deviceIllegalInstruction
  | deviceSramAddr
  | deviceParityError
  | deviceNfaStateLimit
  | deviceNfaTimeout
  | deviceDfaTimeout
  | deviceBusyPollTimeout
  | deviceContextFail
  | deviceResultClamp
  | deviceContextClamp
  | deviceContextRingEmpty
  | ddr3DelayChangeFail
  | ddr3LevelingMaxDelayReached
  deriving DecidableEq, Repr

/-- `NLM_MAX_DATABASE_ID` of the famos build. -/
abbrev nlmMaxDatabaseId : ℕ := 3

/-- `NLM_MAX_GROUP_ID` of the famos build. -/
abbrev nlmMaxGroupId : ℕ := 1023

/-- `TOTAL_FAMOS_BLOCKS`, the size of the per-block tables. -/
abbrev totalFamosBlocks : ℕ := 12

end NetL7
