import Mathlib.Algebra.Order.Ring.Nat
import Mathlib.Data.List.Basic

/-!
# Types — errors, paths, options and outcomes shared by the writers

Native failures are `IoError`s; the public failures wrap one together with the operation and
the paths it concerns.  Paths are their component lists.
-/

namespace LocalFiles

/-! ## 1. Errors -/

/-- The native error kinds the library names; every other kind is `uncategorized`. -/
inductive ErrorKind where
  | notFound | permissionDenied | alreadyExists | wouldBlock | notADirectory | isADirectory
  | directoryNotEmpty | invalidInput | invalidData | timedOut | writeZero | interrupted
  | unsupported | brokenPipe | outOfMemory | storageFull | quotaExceeded | fileTooLarge
  | resourceBusy | crossesDevices | other | uncategorized
  deriving DecidableEq, Repr

structure IoError where
  kind : ErrorKind
  message : String
  osCode : Option Nat := none
  deriving DecidableEq, Repr

abbrev IoResult (α : Type) := Except IoError α

abbrev Path := List String

/-- `usize` has 64 bits. -/
def usizeMax : Nat := 2 ^ 64 - 1

inductive LocalFileErrorKind where
  | notFound | alreadyExists | notDirectory | isDirectory | typeConflict | permissionDenied
  | invalidPath | invalidOptions | dataCorruption | unsupported | requirementNotMet | resourceLimit | invalidState
  | publicationIncomplete | indeterminate | io
  deriving DecidableEq, Repr

inductive LocalFileOperation where
  | openReader | openWriter | read | commit | abort | cleanup | composePath | deleteDirectory
  | persistTemp | list | metadata | copy | bindPath | createTempFile | createTempDirectory
  deriving DecidableEq, Repr

inductive LocalFileEffectState where
  | unchanged | partiallyApplied | applied | indeterminate
  deriving DecidableEq, Repr

inductive LocalResourceKind where
  | depth | openDirectory | entry | seenNameBytes | pendingPathBytes | copiedBytes
  | pendingResolutionComponents | resolvedComponents | pendingResolutionBytes | resolvedPathBytes
  | symlinkHops | symlinkTargetBytes
  deriving DecidableEq, Repr

structure LocalResourceLimitError where
  resource : LocalResourceKind
  limit : Nat
  remaining : Nat
  requested : Nat
  observed : Option Nat := none
  deriving DecidableEq, Repr

def LocalResourceLimitError.new (resource : LocalResourceKind) (limit remaining requested : Nat) :
    LocalResourceLimitError where
  resource := resource
  limit := limit
  remaining := remaining
  requested := requested

inductive LocalPathCodecError where
  | invalidEscape (offset : Nat)
  | nonCanonicalText
  | nativeNul
  | unsupportedNativeEncoding
  | unrepresentableNativeValue
  deriving DecidableEq, Repr

inductive LocalFileErrorSource where
  | io (error : IoError)
  | pathCodec (error : LocalPathCodecError)
  | resourceLimit (error : LocalResourceLimitError)
  deriving DecidableEq, Repr

def classifyIoError (error : IoError) : LocalFileErrorKind :=
  match error.kind with
  | .notFound => .notFound
  | .alreadyExists => .alreadyExists
  | .notADirectory => .notDirectory
  | .isADirectory => .isDirectory
  | .permissionDenied => .permissionDenied
  | .invalidInput => .invalidPath
  | .invalidData => .dataCorruption
  | .unsupported => .unsupported
  | .outOfMemory | .storageFull | .quotaExceeded => .resourceLimit
  | _ => .io

structure LocalFileError where
  kind : LocalFileErrorKind
  operation : LocalFileOperation
  currentDirectory : Option Path := none
  path : Option Path := none
  target : Option Path := none
  source : Option LocalFileErrorSource := none
  effectState : Option LocalFileEffectState := none
  reason : Option String := none
  deriving DecidableEq, Repr

namespace LocalFileError

def new (kind : LocalFileErrorKind) (operation : LocalFileOperation) : LocalFileError where
  kind := kind
  operation := operation

def withPath (error : LocalFileError) (path : Path) : LocalFileError :=
  { error with path := some path }

def withReason (error : LocalFileError) (reason : String) : LocalFileError :=
  { error with reason := some reason }

def fromIo (operation : LocalFileOperation) (path target : Option Path) (source : IoError) :
    LocalFileError where
  kind := classifyIoError source
  operation := operation
  path := path
  target := target
  source := some (.io source)

def fromPathCodec (operation : LocalFileOperation) (path : Option Path)
    (error : LocalPathCodecError) : LocalFileError where
  kind := .invalidPath
  operation := operation
  path := path
  source := some (.pathCodec error)

def fromResourceLimit (operation : LocalFileOperation) (path : Option Path)
    (source : LocalResourceLimitError) : LocalFileError where
  kind := .resourceLimit
  operation := operation
  path := path
  source := some (.resourceLimit source)

def withCurrentDirectory (error : LocalFileError) (directory : Path) : LocalFileError :=
  { error with currentDirectory := some directory }

def ioError (error : LocalFileError) : Option IoError :=
  match error.source with
  | some (.io source) => some source
  | _ => none

def resourceLimitError (error : LocalFileError) : Option LocalResourceLimitError :=
  match error.source with
  | some (.resourceLimit source) => some source
  | _ => none

def withKind (error : LocalFileError) (kind : LocalFileErrorKind) : LocalFileError :=
  { error with kind := kind }

def withOperation (error : LocalFileError) (operation : LocalFileOperation) : LocalFileError :=
  { error with operation := operation }

/-- `standard_io_error_kind`: a native source keeps its kind. -/
def standardIoErrorKind (error : LocalFileError) : ErrorKind :=
  match error.source with
  | some (.io source) => source.kind
  | some (.pathCodec _) => .invalidInput
  | some (.resourceLimit _) => .other
  | none =>
    match error.kind with
    | .alreadyExists => .alreadyExists
    | .invalidPath | .invalidOptions | .invalidState => .invalidInput
    | .notDirectory => .notADirectory
    | .isDirectory => .isADirectory
    | .notFound => .notFound
    | .permissionDenied => .permissionDenied
    | .dataCorruption => .invalidData
    | .requirementNotMet | .unsupported => .unsupported
    | _ => .other

def intoIoError (error : LocalFileError) : IoError where
  kind := error.standardIoErrorKind
  message := match error.source with
    | some (.io source) => source.message
    | _ => ""

end LocalFileError

/-- `io::Error::other`: a structured failure carried inside a native one. -/
def IoError.wrapping (error : LocalFileError) : IoError where
  kind := .other
  message := match error.source with
    | some (.io source) => source.message
    | _ => ""

/-- How a function ends without a value: with an error for its caller, or with a panic. -/
inductive Halt (ε : Type) where
  | error (e : ε)
  | panic (message : String)
  deriving DecidableEq, Repr

/-! ## 2. Entries -/

/-- Device and inode, or volume and file index. -/
structure LocalFileIdentity where
  volume : UInt64
  file : UInt64
  deriving DecidableEq, Repr

inductive EntryKind where
  | file | directory | symlink | other
  deriving DecidableEq, Repr

structure Metadata where
  kind : EntryKind
  identity : Option LocalFileIdentity
  deriving DecidableEq, Repr

def Metadata.isSameFile (left right : Metadata) : Bool :=
  match left.identity, right.identity with
  | some left, some right => left == right
  | _, _ => false

/-! ## 3. Options -/

inductive LocalFileSystemScope where
  | host | rooted
  deriving DecidableEq, Repr

inductive LocalSymlinkPolicy where
  | reject | followWithinScope | followAcrossScope
  deriving DecidableEq, Repr

def LocalSymlinkPolicy.follows : LocalSymlinkPolicy → Bool
  | .reject => false
  | .followWithinScope | .followAcrossScope => true

inductive LocalWriteMode where
  | createNew | createOrReplace | append
  deriving DecidableEq, Repr

inductive LocalWriteMetadataPolicy where
  | preserveExisting | useStaging
  deriving DecidableEq, Repr

inductive LocalDurabilityRequirement where
  | required | preferred | notRequired
  deriving DecidableEq, Repr

inductive LocalFileSyncRequirement where
  | notRequired | preferred | required
  deriving DecidableEq, Repr

structure LocalWriteOptions where
  mode : LocalWriteMode := .createNew
  metadataPolicy : LocalWriteMetadataPolicy := .preserveExisting
  durability : LocalDurabilityRequirement := .notRequired
  fileSync : LocalFileSyncRequirement := .notRequired
  deriving DecidableEq, Repr

/-! ## 4. Outcomes -/

inductive LocalWriterState where
  | opened | committed | aborted
  deriving DecidableEq, Repr

inductive LocalWriteFailureState where
  | notPublished | published | indeterminate
  deriving DecidableEq, Repr

inductive LocalWritePublicationMethod where
  | atomicRename | directAppend | atomicExchange | atomicReplaceWithBackup
  deriving DecidableEq, Repr

structure LocalWriteOutcome where
  state : LocalWriterState
  atomic : Bool
  publicationMethod : LocalWritePublicationMethod
  durable : Bool
  fileSynced : Bool := false
  bytesWritten : UInt64
  failureState : Option LocalWriteFailureState
  deriving DecidableEq, Repr

end LocalFiles
