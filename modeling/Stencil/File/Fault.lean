/-!
# Faults of input and output

Why a file could not be read or written. Each fault has a name, which messages about templates
mention, and a message of its own, which is shown as the cause of another message.
-/

namespace Stencil

/-- A **fault of input or output**. -/
inductive IoFault where
  /-- Nothing is at the path. -/
  | notFound
  | permissionDenied
  /-- Something is at the path already. -/
  | alreadyExists
  /-- The path leads through something that is no directory. -/
  | notADirectory
  /-- A directory is at the path. -/
  | isADirectory
  /-- The path leads through too many links. -/
  | tooManyLinks
  /-- A name in the path, or the whole path, is too long. -/
  | nameTooLong
  /-- The path holds a character that no path can hold. -/
  | invalidPath
  /-- What is at the path is no regular file. -/
  | notRegular
  /-- The bytes of the file are no text. -/
  | invalidText
  /-- No more bytes are taken. -/
  | writeZero
  /-- Whoever should take the bytes is gone. -/
  | brokenPipe
  /-- It took too long. -/
  | timedOut
  deriving DecidableEq, Repr

namespace IoFault

/-- The name of a fault. -/
def name : IoFault → String
  | notFound => "NotFound"
  | permissionDenied => "PermissionDenied"
  | alreadyExists => "AlreadyExists"
  | notADirectory => "NotADirectory"
  | isADirectory => "IsADirectory"
  | tooManyLinks => "FilesystemLoop"
  | nameTooLong => "InvalidFilename"
  | invalidPath => "InvalidInput"
  | notRegular => "InvalidInput"
  | invalidText => "InvalidData"
  | writeZero => "WriteZero"
  | brokenPipe => "BrokenPipe"
  | timedOut => "TimedOut"

/-- The message of a fault. -/
def message : IoFault → String
  | notFound => "No such file or directory (os error 2)"
  | permissionDenied => "Permission denied (os error 13)"
  | alreadyExists => "File exists (os error 17)"
  | notADirectory => "Not a directory (os error 20)"
  | isADirectory => "Is a directory (os error 21)"
  | tooManyLinks => "Too many levels of symbolic links (os error 40)"
  | nameTooLong => "File name too long (os error 36)"
  | invalidPath => "file name contained an unexpected NUL byte"
  | notRegular => "the source path is neither a regular file nor a symlink to a regular file"
  | invalidText => "stream did not contain valid UTF-8"
  | writeZero => "failed to write whole buffer"
  | brokenPipe => "Broken pipe (os error 32)"
  | timedOut => "Connection timed out (os error 110)"

end IoFault

end Stencil
