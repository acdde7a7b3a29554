import Mathlib.Data.Int.Notation

/-! The error codes of the kernel, as signed numbers that every stage returns. -/
namespace AuthorityKernel

def akESchemaInvalid : Int := -4002
def akEJsonInvalid : Int := -4004
def akECapMissing : Int := -4100
def akECapInvalid : Int := -4101
def akECapExpired : Int := -4102
def akECapScope : Int := -4103
def akECapRevoked : Int := -4104
def akECapRate : Int := -4105
def akECapRunMismatch : Int := -4106
def akEReplay : Int := -4200
def akEPolicyDeny : Int := -4201
def akETaint : Int := -4203
def akEDlpBlock : Int := -4204
def akEBudgetExceeded : Int := -4300
def akEQuotaExceeded : Int := -4303
def akEConflict : Int := -4400
def akEToolFail : Int := -4401
def akEToolNotFound : Int := -4403
def akELogFull : Int := -4404
def akELogCorrupt : Int := -4405
def akENotImplemented : Int := -4406
def akESeqGap : Int := -4501
def akEPolicyDenied : Int := -4502
def akEWasmInvalidModule : Int := -4500
def akEWasmLoadFailed : Int := -4501
def akEWasmExportNotFound : Int := -4502
def akEWasmTrap : Int := -4504
def akEWasmOom : Int := -4505
def akEWasmTimeout : Int := -4506
def akEWasmHostError : Int := -4507
def akEWasmUnsupported : Int := -4509
def akENetUrlInvalid : Int := -4552
def akENetHostInvalid : Int := -4553
def akELlmNotConfigured : Int := -4600
def akELlmConnectionFailed : Int := -4601
def akELlmApiError : Int := -4603
def akEStateNotFound : Int := -4700
def akEStateSyncFailed : Int := -4702
def akEStateBackendError : Int := -4703

def ePerm : Int := 1
def eNoent : Int := 2
def eSrch : Int := 3
def eIo : Int := 5
def eBadf : Int := 9
def eAgain : Int := 11
def eNomem : Int := 12
def eAcces : Int := 13
def eFault : Int := 14
def eExist : Int := 17
def eNotdir : Int := 20
def eInval : Int := 22
def ePipe : Int := 32
def eNametoolong : Int := 36
def eNosys : Int := 38
def eLoop : Int := 40
def eDestaddrreq : Int := 89
def eOpnotsupp : Int := 95
def eNobufs : Int := 105
def eIsconn : Int := 106
def eNotconn : Int := 107
def eAlready : Int := 114

end AuthorityKernel
