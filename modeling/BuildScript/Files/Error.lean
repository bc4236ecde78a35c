import BuildScript.Text.Bytes

/-!
# Failures of input and output

* `OsError`: what an operating system says about a path or a descriptor;
* `IoError`: what goes wrong with a reader or a writer.

Each failure is a cause; `message` is the only place where it has words.
-/

namespace BuildScript

inductive OsError where
  | notFound
  | badDescriptor
  | notDirectory
  | isDirectory
  | nameTooLong
  | tooManyLinks
  /-- A name holds a NUL byte, so it cannot be handed to the system at all. -/
  | nulInName
  deriving DecidableEq, Repr

namespace OsError

/-- The words and the number of an error. -/
def describe : OsError → String × Option Nat
  | notFound => ("No such file or directory", some 2)
  | badDescriptor => ("Bad file descriptor", some 9)
  | notDirectory => ("Not a directory", some 20)
  | isDirectory => ("Is a directory", some 21)
  | nameTooLong => ("File name too long", some 36)
  | tooManyLinks => ("Too many levels of symbolic links", some 40)
  | nulInName => ("file name contained an unexpected NUL byte", none)

def message (e : OsError) : String :=
  match e.describe with
  | (text, none) => text
  | (text, some n) => text ++ " (os error " ++ toString n ++ ")"

end OsError

inductive IoError where
  | writerFull
  | flushFailed
  | readerBroke
  | os (e : OsError)
  deriving DecidableEq, Repr

def IoError.message : IoError → String
  | writerFull => "writer full"
  | flushFailed => "flush failed"
  | readerBroke => "reader broke"
  | os e => e.message

end BuildScript
