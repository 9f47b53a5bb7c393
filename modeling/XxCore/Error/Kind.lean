import XxCore.Os.Error

/-! `ErrorKind` of `error/kind.rs`, and what it is made from. -/
namespace XxCore.Error

open Os

/-- An enum with `repr(u8)`. -/
inductive ErrorKind where
  | notFound | permissionDenied | connectionRefused | connectionReset | hostUnreachable
  | networkUnreachable | connectionAborted | notConnected | addrInUse | addrNotAvailable
  | networkDown | brokenPipe | alreadyExists | wouldBlock | notADirectory | isADirectory
  | directoryNotEmpty | readOnlyFilesystem | fileSystemLoop | staleNetworkFileHandle
  | invalidInput | invalidData | timedOut | writeZero | storageFull | notSeekable
  | diskQuotaExceeded | fileTooLarge | resourceBusy | executableFileBusy | deadlock
  | crossesDevices | tooManyLinks | invalidFilename | argumentListTooLong | interrupted
  | unsupported | unexpectedEof | outOfMemory | overflow | shutdown | formatterError
  | unimplemented | alreadyInProgress | noData | other | uncategorized
  deriving DecidableEq, Repr

/-- `std::io::ErrorKind`. -/
inductive IoErrorKind where
  | notFound | permissionDenied | connectionRefused | connectionReset | hostUnreachable
  | networkUnreachable | connectionAborted | notConnected | addrInUse | addrNotAvailable
  | networkDown | brokenPipe | alreadyExists | wouldBlock | notADirectory | isADirectory
  | directoryNotEmpty | readOnlyFilesystem | filesystemLoop | staleNetworkFileHandle
  | invalidInput | invalidData | timedOut | writeZero | storageFull | notSeekable | quotaExceeded
  | fileTooLarge | resourceBusy | executableFileBusy | deadlock | crossesDevices | tooManyLinks
  | invalidFilename | argumentListTooLong | interrupted | unsupported | unexpectedEof
  | outOfMemory | inProgress | other | uncategorized
  deriving DecidableEq, Repr

namespace ErrorKind

/-- Every kind, in the order of the discriminants. -/
def all : List ErrorKind := [
  .notFound, .permissionDenied, .connectionRefused, .connectionReset, .hostUnreachable,
  .networkUnreachable, .connectionAborted, .notConnected, .addrInUse, .addrNotAvailable,
  .networkDown, .brokenPipe, .alreadyExists, .wouldBlock, .notADirectory, .isADirectory,
  .directoryNotEmpty, .readOnlyFilesystem, .fileSystemLoop, .staleNetworkFileHandle,
  .invalidInput, .invalidData, .timedOut, .writeZero, .storageFull, .notSeekable,
  .diskQuotaExceeded, .fileTooLarge, .resourceBusy, .executableFileBusy, .deadlock,
  .crossesDevices, .tooManyLinks, .invalidFilename, .argumentListTooLong, .interrupted,
  .unsupported, .unexpectedEof, .outOfMemory, .overflow, .shutdown, .formatterError,
  .unimplemented, .alreadyInProgress, .noData, .other, .uncategorized]

def discriminant (kind : ErrorKind) : Nat := all.idxOf kind

theorem all_get_discriminant (kind : ErrorKind) : all[kind.discriminant]? = some kind := by
  cases kind <;> rfl

theorem discriminant_lt (kind : ErrorKind) : kind.discriminant < 256 := by
  cases kind <;> decide

/-- The arms of `From<OsError>` but the last. -/
def osKinds : List (OsError × ErrorKind) := [
  (.tooBig,.argumentListTooLong), (.addrInUse,.addrInUse), (.addrNotAvail,.addrNotAvailable),
  (.busy,.resourceBusy), (.connAborted,.connectionAborted), (.connRefused,.connectionRefused),
  (.connReset,.connectionReset), (.deadlock,.deadlock), (.dQuot,.diskQuotaExceeded),
  (.exist,.alreadyExists), (.fBig,.fileTooLarge), (.hostUnreach,.hostUnreachable),
  (.intr,.interrupted), (.inval,.invalidInput), (.isDir,.isADirectory), (.loop,.fileSystemLoop),
  (.noEnt,.notFound), (.noMem,.outOfMemory), (.noSpc,.storageFull), (.noSys,.unsupported),
  (.mLink,.tooManyLinks), (.nameTooLong,.invalidFilename), (.netDown,.networkDown),
  (.netUnreach,.networkUnreachable), (.notConn,.notConnected), (.notDir,.notADirectory),
  (.notEmpty,.directoryNotEmpty), (.pipe,.brokenPipe), (.rofs,.readOnlyFilesystem),
  (.sPipe,.notSeekable), (.stale,.staleNetworkFileHandle), (.timedOut,.timedOut),
  (.txtBsy,.executableFileBusy), (.xDev,.crossesDevices), (.acces,.permissionDenied),
  (.perm,.permissionDenied), (.canceled,.interrupted), (.again,.wouldBlock)]

/-- `From<OsError>` with the feature `os`. -/
def ofOsError (value : OsError) : ErrorKind := (osKinds.lookup value).getD .uncategorized

/-- `From<io::ErrorKind>`. -/
def ofIo : IoErrorKind → ErrorKind
  | .notFound => .notFound
  | .permissionDenied => .permissionDenied
  | .connectionRefused => .connectionRefused
  | .connectionReset => .connectionReset
  | .connectionAborted => .connectionAborted
  | .notConnected => .notConnected
  | .addrInUse => .addrInUse
  | .addrNotAvailable => .addrNotAvailable
  | .brokenPipe => .brokenPipe
  | .alreadyExists => .alreadyExists
  | .wouldBlock => .wouldBlock
  | .invalidInput => .invalidInput
  | .invalidData => .invalidData
  | .timedOut => .timedOut
  | .writeZero => .writeZero
  | .interrupted => .interrupted
  | .unsupported => .unsupported
  | .unexpectedEof => .unexpectedEof
  | .outOfMemory => .outOfMemory
  | _ => .other

end ErrorKind

end XxCore.Error
