/-!
# Files that cannot be read or written
-/

namespace Datacenter

inductive FileError where
  | notFound
  | isFolder
  | notFolder
  | nameTooLong
  | nullInName
  | notText
  | other (description : String)
  deriving DecidableEq

def FileError.message : FileError → String
  | .notFound => "No such file or directory (os error 2)"
  | .isFolder => "Is a directory (os error 21)"
  | .notFolder => "Not a directory (os error 20)"
  | .nameTooLong => "File name too long (os error 36)"
  | .nullInName => "file name contained an unexpected NUL byte"
  | .notText => "stream did not contain valid UTF-8"
  | .other description => description

end Datacenter
