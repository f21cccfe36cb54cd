/-!
# The errors of the crate

`std::io::Error` is modelled by the two shapes it is built in here: an error the
operating system reported, which keeps its error number, and one the crate made
up, with a kind and a text (`SaferRing.IoError`). What an I/O call returns is a
`SaferRing.IoResult`, the crate's `io::Result<i32>`; what a method of the crate
returns carries a `SaferRing.SaferRingError`.

The one operation the crate performs on an I/O error, over and over, is to copy it
by its kind and its text (`SaferRing.IoError.copy`), because the standard library's
error cannot be cloned. A copy has the kind of the original.
-/

namespace SaferRing

/-! ### Kinds and texts -/

/-- The kinds of I/O error, `std::io::ErrorKind`. -/
inductive ErrorKind
  | notFound | permissionDenied | connectionRefused | connectionReset | hostUnreachable
  | networkUnreachable | connectionAborted | notConnected | addrInUse | addrNotAvailable
  | networkDown | brokenPipe | alreadyExists | wouldBlock | notADirectory | isADirectory
  | directoryNotEmpty | readOnlyFilesystem | filesystemLoop | staleNetworkFileHandle
  | invalidInput | invalidData | timedOut | writeZero | storageFull | notSeekable
  | quotaExceeded | fileTooLarge | resourceBusy | executableFileBusy | deadlock
  | crossesDevices | tooManyLinks | invalidFilename | argumentListTooLong | interrupted
  | unsupported | unexpectedEof | outOfMemory | inProgress | other | uncategorized
  deriving DecidableEq, Repr

/-- The kind the standard library gives a Linux error number. -/
def decodeErrorKind : Nat → ErrorKind
  | 1 | 13 => .permissionDenied
  | 2 => .notFound
  | 4 => .interrupted
  | 7 => .argumentListTooLong
  | 11 => .wouldBlock
  | 12 => .outOfMemory
  | 16 => .resourceBusy
  | 17 => .alreadyExists
  | 18 => .crossesDevices
  | 20 => .notADirectory
  | 21 => .isADirectory
  | 22 => .invalidInput
  | 26 => .executableFileBusy
  | 27 => .fileTooLarge
  | 28 => .storageFull
  | 29 => .notSeekable
  | 30 => .readOnlyFilesystem
  | 31 => .tooManyLinks
  | 32 => .brokenPipe
  | 35 => .deadlock
  | 36 => .invalidFilename
  | 38 | 95 => .unsupported
  | 39 => .directoryNotEmpty
  | 40 => .filesystemLoop
  | 98 => .addrInUse
  | 99 => .addrNotAvailable
  | 100 => .networkDown
  | 101 => .networkUnreachable
  | 103 => .connectionAborted
  | 104 => .connectionReset
  | 107 => .notConnected
  | 110 => .timedOut
  | 111 => .connectionRefused
  | 113 => .hostUnreachable
  | 115 => .inProgress
  | 116 => .staleNetworkFileHandle
  | 122 => .quotaExceeded
  | _ => .uncategorized

/-- What an error prints: a text of the crate, or the C library's text for an
error number, which nothing in the crate looks into. -/
inductive ErrorText
  /-- A text of the crate. -/
  | text (s : String)
  /-- The C library's text for the error number `code`. -/
  | strerror (code : Nat)
  deriving DecidableEq, Repr

/-! ### I/O errors -/

/-- An I/O error, `std::io::Error`. -/
inductive IoError
  /-- An error reported by the operating system, by its number. -/
  | os (code : Nat)
  /-- An error built from a kind and a text. -/
  | custom (kind : ErrorKind) (message : ErrorText)
  deriving DecidableEq, Repr

/-- The result of an I/O call: the byte count (or descriptor) it returned, or the
error. The value is an `i32` in the source. -/
abbrev IoResult := Except IoError Int

namespace IoError

/-- `io::Error::new(kind, text)`. -/
def new (kind : ErrorKind) (message : String) : IoError := .custom kind (.text message)

/-- `io::Error::other(text)`. -/
def other (message : String) : IoError := .new .other message

/-- The kind of an error. -/
def kind : IoError → ErrorKind
  | .os code => decodeErrorKind code
  | .custom kind _ => kind

/-- What the error prints. -/
def toText : IoError → ErrorText
  | .os code => .strerror code
  | .custom _ message => message

/-- **The copy of an error**: `io::Error::new(e.kind(), format!("{e}"))`. -/
def copy (e : IoError) : IoError := .custom e.kind e.toText

@[simp] theorem kind_copy (e : IoError) : e.copy.kind = e.kind := rfl

@[simp] theorem copy_copy (e : IoError) : e.copy.copy = e.copy := rfl

end IoError

/-- The copy of a completion's result that the ring caches and returns. -/
def copyResult : IoResult → IoResult
  | .ok bytes => .ok bytes
  | .error e => .error e.copy

@[simp] theorem copyResult_copyResult (r : IoResult) :
    copyResult (copyResult r) = copyResult r := by
  cases r with
  | ok => rfl
  | error e => exact congrArg Except.error e.copy_copy

/-! ### The error type of the crate -/

/-- The crate's own error type. -/
inductive SaferRingError
  /-- The buffer is used by an operation in flight. -/
  | bufferInFlight
  /-- The operation has not completed. -/
  | operationPending
  /-- The ring has `count` operations in flight. -/
  | operationsInFlight (count : Nat)
  /-- The operation is not in the state the transition needs. -/
  | invalidStateTransition
  /-- The resource is not registered. -/
  | notRegistered
  /-- The buffer pool is empty. -/
  | poolEmpty
  /-- The buffer pool's lock is poisoned. -/
  | poolPoisoned
  /-- An I/O error. -/
  | io (e : IoError)
  deriving DecidableEq, Repr

/-- The error most methods build: an I/O error with a kind and a text. -/
def SaferRingError.ioNew (kind : ErrorKind) (message : String) : SaferRingError :=
  .io (.new kind message)

end SaferRing
