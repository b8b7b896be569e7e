import FileSpec.Text.Quoted

/-!
Errors of the operating system.
-/

set_option autoImplicit false

namespace FileSpec

open Text

structure OsError where
  code : Int
  text : List Char
  path : List Char
  deriving DecidableEq, Repr

namespace OsError

def message (error : OsError) : List Char :=
  "[Errno ".toList ++ signedDecimal error.code ++ "] ".toList ++ error.text ++ ": ".toList ++
    quoted error.path

def isNotFound (error : OsError) : Bool :=
  error.code == 2

def isAlreadyExists (error : OsError) : Bool :=
  error.code == 17

def isNotDirectory (error : OsError) : Bool :=
  error.code == 20

def isNotPermitted (error : OsError) : Bool :=
  error.code == 1 || error.code == 13

def notFound (path : List Char) : OsError :=
  ⟨2, "No such file or directory".toList, path⟩

def permissionDenied (path : List Char) : OsError :=
  ⟨13, "Permission denied".toList, path⟩

def alreadyExists (path : List Char) : OsError :=
  ⟨17, "File exists".toList, path⟩

def notADirectory (path : List Char) : OsError :=
  ⟨20, "Not a directory".toList, path⟩

def isADirectory (path : List Char) : OsError :=
  ⟨21, "Is a directory".toList, path⟩

def nameTooLong (path : List Char) : OsError :=
  ⟨36, "File name too long".toList, path⟩

end OsError

end FileSpec
