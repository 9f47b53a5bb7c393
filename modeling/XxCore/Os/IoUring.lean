import Mathlib.Algebra.Group.Nat.Defs
import Mathlib.Data.List.Basic
import XxCore.Os.Error

/-! What `io_uring_detect_features` of `os/io_uring.rs` finds out: the tables, the kernel as what it
answers, and the four scans. The record keeps, beside the features, each value that `min_ver` was
given and the flags whose trial setup was accepted. -/
namespace XxCore.Os.IoUring

/-! The enums, numbered in their order. `Last` counts the ones before it. -/

inductive SetupFlag where
  | ioPoll | submissionQueuePolling | submissionQueueAffinity | completionRingSize | clamp | attachWq
  | ringDisabled | submitAll | coopTaskrun | taskrunFlag | submissionEntryWide | completionEntryWide
  | singleIssuer | deferTaskrun | noMmap | registeredFdOnly | noSubmissionArray
  deriving DecidableEq

inductive Feature where
  | singleMmap | noDrop | submitStable | rwCurPos | curPersonality | fastPoll | poll32Bits
  | sqPollNonFixed | extArg | nativeWorkers | rsrcTags | cqeSkip | linkedFile | regRegRing
  deriving DecidableEq

inductive OpCode where
  | noOp | readVector | writeVector | fileSync | readFixed | writeFixed | pollAdd | pollRemove
  | syncFileRange | sendMsg | recvMsg | timeout | timeoutRemove | accept | asyncCancel | linkTimeout
  | connect | fileAllocate | openAt | close | filesUpdate | statx | read | write | fileAdvise
  | memoryAdvise | send | recv | openAt2 | ePollCtl | splice | provideBuffers | removeBuffers | tee
  | shutdown | renameAt | unlinkAt | mkdirAt | symlinkAt | linkAt | msgRing | fileSetXAttr | setXAttr
  | fileGetXAttr | getXAttr | socket | uringCmd | sendZeroCopy | sendMsgZeroCopy | readMultishot
  | waitId | futexWait | futexWake | futexWaitV | fixedFdInstall | fileTruncate
  deriving DecidableEq

def OpCode.last : Nat := 56

inductive RegisterOp where
  | registerBuffers | unregisterBuffers | registerFiles | unregisterFiles | registerEventFd
  | unregisterEventFd | registerFilesUpdate | registerEventFdAsync | registerProbe
  | registerPersonality | unregisterPersonality | registerRestrictions | registerEnableRings
  | registerFiles2 | registerFilesUpdate2 | registerBuffers2 | registerBuffersUpdate
  | registerIoWqAff | unregisterIoWqAff | registerIoWqMaxWorkers | registerRingFds
  | unregisterRingFds | registerPBufRing | unregisterPBufRing | syncCancel | registerFileAllocRange
  | registerUseRegisteredRing
  deriving DecidableEq

def RegisterOp.last : Nat := 26

/-- `op as usize`. -/
def RegisterOp.value (op : RegisterOp) : Nat :=
  if op = .registerUseRegisteredRing then 2 ^ 31 else op.ctorIdx

/-- The place of an operation in the set of the supported ones. -/
def RegisterOp.index (op : RegisterOp) : Nat :=
  if op = .registerUseRegisteredRing then last else op.value

/-- `BitFlags` with 32 bits, in which each flag is one bit. -/
abbrev BitFlags := BitVec 32

def SetupFlag.bits (flag : SetupFlag) : BitFlags := BitVec.twoPow 32 flag.ctorIdx

def Feature.bits (feature : Feature) : BitFlags := BitVec.twoPow 32 feature.ctorIdx

/-- `Parameters::features`: the bits of features that are known. -/
def Feature.fromBitsTruncate (bits : BitVec 32) : BitFlags := bits &&& 0x3fff

def intersects (flags other : BitFlags) : Bool := flags &&& other != 0

def featureMap : List (Feature × Nat) := [
  (.singleMmap,504),(.noDrop,505),(.submitStable,505),(.rwCurPos,506),(.curPersonality,506),
  (.fastPoll,507),(.poll32Bits,509),(.sqPollNonFixed,511),(.extArg,511),(.nativeWorkers,512),
  (.rsrcTags,513),(.cqeSkip,517),(.linkedFile,517),(.regRegRing,603)]

def opMap : List (OpCode × Nat) := [
  (.noOp,501),(.readVector,501),(.writeVector,501),(.readFixed,501),(.writeFixed,501),(.fileSync,501),
  (.pollAdd,501),(.pollRemove,501),(.syncFileRange,502),(.sendMsg,503),(.recvMsg,503),(.timeout,504),
  (.timeoutRemove,505),(.accept,505),(.asyncCancel,505),(.linkTimeout,505),(.connect,505),
  (.ePollCtl,506),(.send,506),(.recv,506),(.fileAllocate,506),(.fileAdvise,506),(.memoryAdvise,506),
  (.openAt,506),(.openAt2,506),(.close,506),(.statx,506),(.read,506),(.write,506),(.filesUpdate,506),
  (.splice,507),(.provideBuffers,507),(.removeBuffers,507),(.tee,508),(.shutdown,511),(.renameAt,511),
  (.unlinkAt,511),(.mkdirAt,515),(.symlinkAt,515),(.linkAt,515),(.msgRing,518),(.fileSetXAttr,519),
  (.setXAttr,519),(.fileGetXAttr,519),(.getXAttr,519),(.socket,519),(.uringCmd,519),
  (.sendZeroCopy,600),(.sendMsgZeroCopy,601),(.readMultishot,607),(.waitId,607),(.futexWait,607),
  (.futexWake,607),(.futexWaitV,607),(.fixedFdInstall,608),(.fileTruncate,609)]

def setupFlagMap : List (SetupFlag × Nat) := [
  (.ioPoll,501),(.submissionQueuePolling,501),(.submissionQueueAffinity,501),
  (.completionRingSize,505),(.clamp,506),(.attachWq,506),(.ringDisabled,510),(.submitAll,518),
  (.coopTaskrun,519),(.taskrunFlag,519),(.submissionEntryWide,519),(.completionEntryWide,519),
  (.singleIssuer,600),(.deferTaskrun,601),(.noMmap,605),(.registeredFdOnly,605),
  (.noSubmissionArray,606)]

def registerMap : List (RegisterOp × Nat) := [
  (.registerBuffers,501),(.unregisterBuffers,501),(.registerFiles,501),(.unregisterFiles,501),
  (.registerEventFd,502),(.unregisterEventFd,502),(.registerFilesUpdate,505),
  (.registerEventFdAsync,506),(.registerProbe,506),(.registerPersonality,506),
  (.unregisterPersonality,506),(.registerRestrictions,510),(.registerEnableRings,510),
  (.registerFiles2,513),(.registerFilesUpdate2,513),(.registerBuffers2,513),
  (.registerBuffersUpdate,513),(.registerIoWqAff,514),(.unregisterIoWqAff,514),
  (.registerIoWqMaxWorkers,515),(.registerRingFds,518),(.unregisterRingFds,518),
  (.registerPBufRing,519),(.unregisterPBufRing,519),(.syncCancel,600),(.registerFileAllocRange,600),
  (.registerUseRegisteredRing,603)]

def probeOpsCount : Nat := 256

/-- What a probe tells: `last_op`, and the flags of each entry. -/
structure Probe where
  lastOp : BitVec 8
  ops : List (BitVec 16)
  length_ops : ops.length = probeOpsCount

/-- What the kernel answers: to the setup without flags, to the probe, and to the trial setup with one
flag. A setup that succeeds gives the features. -/
structure Kernel where
  setup : OsResult (BitVec 32)
  probe : OsResult Probe
  trial : SetupFlag → OsResult (BitVec 32)

def opcodeSupported (ops : List (BitVec 16)) (op : OpCode) : Bool :=
  match ops[op.ctorIdx]? with
  | none => false
  | some flags => flags &&& 1 != 0

structure IoRingFeatures where
  minVer : Nat
  features : BitFlags
  setupFlags : BitFlags
  ops : List Bool
  register : List Bool
  deriving DecidableEq

namespace IoRingFeatures

def featureSupported (features : IoRingFeatures) (feature : Feature) : Bool :=
  intersects features.features feature.bits

def setupFlagSupported (features : IoRingFeatures) (flag : SetupFlag) : Bool :=
  intersects features.setupFlags flag.bits

/-- `self.ops[op as usize]`, where an index out of range is `none`. -/
def opcodeSupported (features : IoRingFeatures) (op : OpCode) : Option Bool :=
  features.ops[op.ctorIdx]?

def registerOpSupported (features : IoRingFeatures) (op : RegisterOp) : Option Bool :=
  features.register[op.index]?

end IoRingFeatures

/-- The detection under way. -/
structure Detection where
  features : IoRingFeatures
  /-- Each value of `min_ver`, the last one first. -/
  versions : List Nat
  accepted : List SetupFlag
  deriving DecidableEq

namespace Detection

def start (reported : BitFlags) : Detection where
  features := {
    minVer := 501
    features := reported
    setupFlags := 0
    ops := List.replicate OpCode.last false
    register := List.replicate (RegisterOp.last + 1) false }
  versions := [501]
  accepted := []

def setMinVer (s : Detection) (version : Nat) : Detection :=
  { s with features := { s.features with minVer := version }, versions := version :: s.versions }

def setOp (s : Detection) (op : OpCode) (supported : Bool) : Detection :=
  { s with features := { s.features with ops := s.features.ops.set op.ctorIdx supported } }

def addSetupFlag (s : Detection) (flag : SetupFlag) : Detection :=
  { s with features := { s.features with setupFlags := s.features.setupFlags ||| flag.bits } }

def addRegister (s : Detection) (op : RegisterOp) : Detection :=
  { s with features := { s.features with register := s.features.register.set op.index true } }

/-- A trial setup that the kernel accepted: `min_ver` is the version of the flag from then on. -/
def accept (s : Detection) (flag : SetupFlag) (version : Nat) : Detection :=
  { s.setMinVer version with accepted := flag :: s.accepted }

/-- The features are looked up from the last one on, and the first one that is there decides. -/
def scanFeatures (s : Detection) : List (Feature × Nat) → Detection
  | [] => s
  | (feature,version) :: rest =>
    if s.features.featureSupported feature then s.setMinVer version else s.scanFeatures rest

/-- The operations where the kernel has no probe. -/
def listOps (s : Detection) : List (OpCode × Nat) → Detection
  | [] => s
  | (op,version) :: rest =>
    if s.features.minVer < version then s else (s.setOp op true).listOps rest

/-- The operations that the probe lists. -/
def scanOps (ops : List (BitVec 16)) (s : Detection) : List (OpCode × Nat) → Detection
  | [] => s
  | (op,version) :: rest =>
    let supported := IoUring.opcodeSupported ops op
    let s := s.setOp op supported
    if supported then (s.setMinVer (max s.features.minVer version)).scanOps ops rest
    else s.scanOps ops rest

def scanSetupFlags (trial : SetupFlag → OsResult (BitVec 32)) (s : Detection) :
    List (SetupFlag × Nat) → Detection
  | [] => s
  | (flag,version) :: rest =>
    if version ≤ s.features.minVer then (s.addSetupFlag flag).scanSetupFlags trial rest
    else if (trial flag).isOk then (s.accept flag version).scanSetupFlags trial rest
    else s.scanSetupFlags trial rest

def scanRegister (s : Detection) : List (RegisterOp × Nat) → Detection
  | [] => s
  | (op,version) :: rest =>
    if s.features.minVer < version then s else (s.addRegister op).scanRegister rest

/-- What the probe says about the operations. An invalid argument is a kernel without a probe. -/
def probed (s : Detection) : OsResult Probe → OsResult Detection
  | .error err => if err = .inval then .ok (s.listOps opMap) else .error err
  | .ok probe =>
    let s := s.setMinVer (max s.features.minVer 506)
    .ok (s.scanOps (probe.ops.take (probe.lastOp.toNat + 1)) opMap)

end Detection

open Detection

/-- `io_uring_detect_features`. -/
def detectFeatures (kernel : Kernel) : OsResult (Option Detection) :=
  match kernel.setup with
  | .error err => if err = .noSys then .ok none else .error err
  | .ok reported =>
    let s := (start (Feature.fromBitsTruncate reported)).scanFeatures featureMap.reverse
    match s.probed kernel.probe with
    | .error err => .error err
    | .ok s => .ok (some ((s.scanSetupFlags kernel.trial setupFlagMap.reverse).scanRegister registerMap))

end XxCore.Os.IoUring
