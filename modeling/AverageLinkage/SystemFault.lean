/-!
# Causes of failing file access

The reasons for which the operating system, or the decoding of a text, can
refuse to deliver or to take data.
-/

namespace AverageLinkage

inductive SystemFault where
  | notFound
  | notDirectory
  | isDirectory
  | noSpace
  /-- A name in a path, or the path itself, is longer than allowed. -/
  | nameTooLong
  /-- A path holds the character that ends texts for the system. -/
  | unexpectedNul
  /-- A line is not well-formed UTF-8. -/
  | malformedText
  /-- Any other cause, by its description. -/
  | other (description : String)
  deriving DecidableEq, Repr

def SystemFault.message : SystemFault → String
  | .notFound => "No such file or directory (os error 2)"
  | .notDirectory => "Not a directory (os error 20)"
  | .isDirectory => "Is a directory (os error 21)"
  | .noSpace => "No space left on device (os error 28)"
  | .nameTooLong => "File name too long (os error 36)"
  | .unexpectedNul => "file name contained an unexpected NUL byte"
  | .malformedText => "stream did not contain valid UTF-8"
  | .other description => description

end AverageLinkage
