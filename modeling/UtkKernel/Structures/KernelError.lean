import Mathlib.Init

/-! # Error codes

`OS_RETURN_E` of `kernel_error.h`, shared by every module of the kernel. -/

namespace UtkKernel
set_option autoImplicit false

/-- `OS_RETURN_E`, in the order of the source. -/
inductive OsReturnE where
  | osNoErr
  | osErrNullPointer
  | osErrMalloc
  | osErrWrongSignature
  | osErrChecksumFailed
  | osErrNotSupported
  | osErrNoSuchIrq
  | osErrNotInitialized
  | osErrIncorrectValue
  | osErrNoSuchId
  | osErrUnauthorizedAction
  | osErrNoMoreFreeMem
  | osErrOutOfBound
  | osErrMemoryNotMapped
  | osErrMappingAlreadyExists
  | osErrSyscallUnknown
  | osErrInterruptAlreadyRegistered
  | osErrInterruptNotRegistered
  | osErrForbidenPriority
  | orErrUnauthorizedInterruptLine
  | osErrAlign
  | osErrWrongPartitionType
  | osErrFileNotFound
  | osErrDirNotEmpty
  | osErrNameTooLong
  | osErrResDestroyed
  | osErrOwnerDied
  | osErrDivByZero
  deriving DecidableEq, Repr

end UtkKernel
