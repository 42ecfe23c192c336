import Myrun.Text

namespace Myrun

/-!
# Errors

Every fallible operation of the runtime returns one error type
(`src/error.rs`).  The variant decides the process exit code, and the exit code
is inspected by the code itself: an `unsupported` cgroup failure is survivable
when no limit was requested.
-/

/-- The central error type. -/
inductive Error where
  | usage (message : String)
  | config (message : String)
  | notFound (message : String)
  | alreadyExists (message : String)
  | invalidState (message : String)
  | syscall (call : String) (errno : Int32) (context : String)
  | io (message : String)
  | parse (message : String)
  | container (message : String)
  | fault (point : String)
  | unsupported (message : String)
  deriving Repr, DecidableEq

abbrev Result (α : Type) := Except Error α

namespace Result

/-- `?` on a success continues with the value. -/
@[simp] theorem ok_bind
    {α β : Type}
    (value : α)
    (next : α → Result β) :
    ((Except.ok value : Result α) >>= next) = next value :=
  rfl

/-- `?` on an error returns it. -/
@[simp] theorem error_bind
    {α β : Type}
    (e : Error)
    (next : α → Result β) :
    ((Except.error e : Result α) >>= next) = Except.error e :=
  rfl

@[simp] theorem pure_eq_ok
    {α : Type}
    (value : α) :
    (pure value : Result α) = Except.ok value :=
  rfl

/-- A sequence of steps succeeds when every step does. -/
theorem bind_eq_ok
    {ε α β : Type}
    {step : Except ε α}
    {next : α → Except ε β}
    {value : β} :
    (step >>= next) = .ok value ↔
      ∃ middle, step = .ok middle ∧ next middle = .ok value := by
  cases step with
  | error e =>
      simp [bind, Except.bind]
  | ok middle =>
      simp [bind, Except.bind]

end Result

/-- Exit codes used by the command line. -/
inductive ExitClass where
  | usage
  | config
  | notFound
  | state
  | syscall
  | unsupported
  | fault
  | generic
  deriving Repr, DecidableEq

namespace ExitClass

/-- The numeric exit code of each class. -/
def code : ExitClass → Int32
  | usage => 64
  | config => 65
  | notFound => 66
  | state => 67
  | syscall => 70
  | unsupported => 71
  | fault => 72
  | generic => 1

end ExitClass

namespace Error

/-- `Error::exit_code`, by class. -/
def exitClass : Error → ExitClass
  | usage _ => .usage
  | config _ => .config
  | parse _ => .config
  | notFound _ => .notFound
  | alreadyExists _ => .state
  | invalidState _ => .state
  | syscall .. => .syscall
  | unsupported _ => .unsupported
  | fault _ => .fault
  | io _ => .generic
  | container _ => .generic

/-- `Error::exit_code`. -/
def exitCode (e : Error) : Int32 :=
  e.exitClass.code

/-- `errno_name`: the symbolic name printed next to a raw `errno`. -/
def errnoName (errno : Int32) : String :=
  match errno.toInt with
  | 1 => "EPERM"
  | 2 => "ENOENT"
  | 3 => "ESRCH"
  | 4 => "EINTR"
  | 5 => "EIO"
  | 9 => "EBADF"
  | 11 => "EAGAIN"
  | 12 => "ENOMEM"
  | 13 => "EACCES"
  | 14 => "EFAULT"
  | 16 => "EBUSY"
  | 17 => "EEXIST"
  | 18 => "EXDEV"
  | 19 => "ENODEV"
  | 20 => "ENOTDIR"
  | 21 => "EISDIR"
  | 22 => "EINVAL"
  | 23 => "ENFILE"
  | 24 => "EMFILE"
  | 25 => "ENOTTY"
  | 28 => "ENOSPC"
  | 32 => "EPIPE"
  | 36 => "ENAMETOOLONG"
  | 38 => "ENOSYS"
  | 39 => "ENOTEMPTY"
  | 61 => "ENODATA"
  | 62 => "ETIME"
  | 95 => "EOPNOTSUPP"
  | 98 => "EADDRINUSE"
  | 110 => "ETIMEDOUT"
  | 111 => "ECONNREFUSED"
  | _ => "E?"

/-- `fmt::Display for Error`. -/
def display : Error → String
  | usage m => m
  | config m => "invalid configuration: " ++ m
  | notFound m => "not found: " ++ m
  | alreadyExists m => "already exists: " ++ m
  | invalidState m => "invalid state: " ++ m
  | syscall call errno context =>
      let head :=
        call ++ "(2) failed: " ++ errnoName errno ++ " (" ++
          toString errno.toInt ++ ")"
      if context.isEmpty then head else head ++ ": " ++ context
  | io m => "io error: " ++ m
  | parse m => "parse error: " ++ m
  | container m => "container error: " ++ m
  | fault m => "injected fault: " ++ m
  | unsupported m => "unsupported: " ++ m

end Error

end Myrun
