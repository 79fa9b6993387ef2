/-!
# Errors of the file system

Why a file could not be opened, read or created, with the wording of each cause.
-/

namespace Dvi

/-- Why compressed data cannot be read to its end. -/
inductive GzipError where
  /-- the first bytes are not those of the format -/
  | badHeader
  /-- the data stop inside the header or inside the check sums -/
  | unexpectedEnd
  /-- the data stop inside the compressed part -/
  | incomplete
  /-- the compressed part is not a valid sequence of blocks -/
  | corrupt
  /-- the check sums are not those of the data -/
  | checksum
  deriving DecidableEq, Repr

/-- The text of what is wrong with a compressed file. -/
def GzipError.message : GzipError → String
  | .badHeader => "invalid gzip header"
  | .unexpectedEnd => "unexpected end of file"
  | .incomplete => "incomplete deflate stream"
  | .corrupt => "corrupt deflate stream"
  | .checksum => "corrupt gzip stream does not have a matching checksum"

/-- Why a file operation failed. -/
inductive FileError where
  | notFound
  | denied
  | noDevice
  | notDirectory
  | isDirectory
  | nameTooLong
  | nulInName
  | notUtf8
  | gzip (e : GzipError)
  deriving DecidableEq, Repr

/-- The text that the system has for a failure. -/
def FileError.message : FileError → String
  | .notFound => "No such file or directory (os error 2)"
  | .denied => "Permission denied (os error 13)"
  | .noDevice => "No such device (os error 19)"
  | .notDirectory => "Not a directory (os error 20)"
  | .isDirectory => "Is a directory (os error 21)"
  | .nameTooLong => "File name too long (os error 36)"
  | .nulInName => "file name contained an unexpected NUL byte"
  | .notUtf8 => "stream did not contain valid UTF-8"
  | .gzip e => e.message

end Dvi
