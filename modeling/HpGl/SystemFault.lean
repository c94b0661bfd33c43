/-!
# Faults of the operating system

What goes wrong with files and devices, and the wording of it.
-/

namespace HpGl

/-- Why the operating system refuses a file or a device. -/
inductive SystemFault where
  | notFound
  /-- A device that a run has not. -/
  | noDevice
  | notDirectory
  | isDirectory
  | noSpace
  /-- A path, or a name in it. -/
  | nameTooLong
  /-- A file whose bytes are no text. -/
  | notText
  /-- Anything else, in the words of the system. -/
  | other (text : String)
  deriving DecidableEq, Repr

/-- The wording of a fault. -/
def SystemFault.message : SystemFault → String
  | notFound => "No such file or directory (os error 2)"
  | noDevice => "No such device or address (os error 6)"
  | notDirectory => "Not a directory (os error 20)"
  | isDirectory => "Is a directory (os error 21)"
  | noSpace => "No space left on device (os error 28)"
  | nameTooLong => "File name too long (os error 36)"
  | notText => "stream did not contain valid UTF-8"
  | other text => text

end HpGl
