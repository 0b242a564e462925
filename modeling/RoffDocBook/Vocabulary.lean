import RoffDocBook.Text.Basic

/-! Words with a meaning of their own in technical prose: error names, environment variables, standards and systems. -/
namespace RoffDocBook.Vocabulary

def errorNames : List String :=
  ["E2BIG", "EACCES", "EADDRINUSE", "EADDRNOTAVAIL", "EAFNOSUPPORT", "EAGAIN", "EALREADY", "EBADF", "EBADMSG",
   "EBUSY", "ECANCELED", "ECHILD", "ECONNABORTED", "ECONNREFUSED", "ECONNRESET", "EDEADLK", "EDESTADDRREQ",
   "EDOM", "EDQUOT", "EEXIST", "EFAULT", "EFBIG", "EHOSTUNREACH", "EIDRM", "EILSEQ", "EINPROGRESS", "EINTR",
   "EINVAL", "EIO", "EISCONN", "EISDIR", "ELOOP", "EMFILE", "EMLINK", "EMSGSIZE", "ENAMETOOLONG", "ENETDOWN",
   "ENETUNREACH", "ENFILE", "ENOBUFS", "ENODEV", "ENOENT", "ENOEXEC", "ENOLCK", "ENOMEM", "ENOMSG", "ENOSPC",
   "ENOSYS", "ENOTCONN", "ENOTDIR", "ENOTEMPTY", "ENOTSOCK", "ENOTSUP", "ENOTTY", "ENXIO", "EOPNOTSUPP",
   "EOVERFLOW", "EPERM", "EPIPE", "EPROTO", "ERANGE", "EROFS", "ESPIPE", "ESRCH", "ESTALE", "ETIMEDOUT",
   "ETXTBSY", "EWOULDBLOCK", "EXDEV"]

def environmentNames : List String :=
  ["COLUMNS", "DISPLAY", "EDITOR", "HOME", "HOSTNAME", "IFS", "LANG", "LANGUAGE", "LC_ALL", "LC_COLLATE",
   "LC_CTYPE", "LC_MESSAGES", "LC_NUMERIC", "LC_TIME", "LD_LIBRARY_PATH", "LD_PRELOAD", "LINES", "LOGNAME",
   "MAIL", "MANPATH", "PAGER", "PATH", "POSIXLY_CORRECT", "PWD", "SHELL", "TERM", "TERMINFO", "TMPDIR", "TZ",
   "USER", "VISUAL", "XDG_CONFIG_HOME"]

/-- Abbreviations of standards with their titles. -/
def standards : List (String × String) :=
  [("-ansiC", "ANSI X3.159-1989 (“ANSI C89”)"),
   ("-ansiC-89", "ANSI X3.159-1989 (“ANSI C89”)"),
   ("-isoC", "ISO/IEC 9899:1990 (“ISO C90”)"),
   ("-isoC-99", "ISO/IEC 9899:1999 (“ISO C99”)"),
   ("-isoC-2011", "ISO/IEC 9899:2011 (“ISO C11”)"),
   ("-p1003.1", "IEEE Std 1003.1 (“POSIX.1”)"),
   ("-p1003.1-88", "IEEE Std 1003.1-1988 (“POSIX.1”)"),
   ("-p1003.1-90", "IEEE Std 1003.1-1990 (“POSIX.1”)"),
   ("-p1003.1-96", "ISO/IEC 9945-1:1996 (“POSIX.1”)"),
   ("-p1003.1-2001", "IEEE Std 1003.1-2001 (“POSIX.1”)"),
   ("-p1003.1-2008", "IEEE Std 1003.1-2008 (“POSIX.1”)"),
   ("-p1003.2", "IEEE Std 1003.2 (“POSIX.2”)"),
   ("-p1003.2-92", "IEEE Std 1003.2-1992 (“POSIX.2”)"),
   ("-susv2", "Version 2 of the Single UNIX Specification (“SUSv2”)"),
   ("-susv3", "Version 3 of the Single UNIX Specification (“SUSv3”)"),
   ("-svid4", "System V Interface Definition, Fourth Edition (“SVID4”)"),
   ("-xpg4", "X/Open Portability Guide Issue 4 (“XPG4”)"),
   ("-ieee754", "IEEE Std 754-1985")]

/-- Requests that name an operating system, with its name. -/
def systems : List (String × String) :=
  [("Bx", "BSD"), ("Bsx", "BSD/OS"), ("Dx", "DragonFly"), ("Fx", "FreeBSD"), ("Nx", "NetBSD"),
   ("Ox", "OpenBSD"), ("Ux", "UNIX"), ("At", "AT&T UNIX")]

def isErrorName (token : Text) : Bool :=
  errorNames.any fun name => name.toList == token

def isEnvironmentName (token : Text) : Bool :=
  environmentNames.any fun name => name.toList == token

def standard? (abbreviation : Text) : Option String :=
  standards.lookup (String.ofList abbreviation)

def system? (request : String) : Option String :=
  systems.lookup request

end RoffDocBook.Vocabulary
