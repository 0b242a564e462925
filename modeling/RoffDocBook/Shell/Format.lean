import RoffDocBook.Shell.Arithmetic

/-! What `echo` and `printf` write. -/
namespace RoffDocBook.Shell
open Text

/-- The character that up to three octal digits stand for, and what follows them. -/
def octalChar (t : Text) : Char × Text :=
  let digits := (t.take 3).takeWhile fun c => '0' ≤ c && c ≤ '7'
  (Char.ofNat (Arithmetic.ofDigits 8 digits % 256), t.drop digits.length)

/-- The character of an escape, from what stands after its backslash. What is no escape leaves the backslash. -/
def escapeChar (t : Text) : Char × Text :=
  match t with
  | [] => ('\\', [])
  | c :: rest =>
    match c with
    | '\\' => ('\\', rest)
    | 'a' => ('\x07', rest)
    | 'b' => ('\x08', rest)
    | 'f' => ('\x0c', rest)
    | 'n' => ('\n', rest)
    | 'r' => ('\r', rest)
    | 't' => ('\t', rest)
    | 'v' => ('\x0b', rest)
    | _ => if '0' ≤ c && c ≤ '7' then octalChar t else ('\\', t)

/-- An argument with its escapes replaced, and whether one of them ends the output. A zero may stand before the digits
of an octal number. -/
def unescape : Nat → Text → Text × Bool
  | 0, _ => ([], false)
  | _, [] => ([], false)
  | fuel + 1, '\\' :: rest =>
    match rest with
    | 'c' :: _ => ([], true)
    | _ =>
      let isLong := rest.head? == some '0' && rest.tail.head?.any fun c => '0' ≤ c && c ≤ '7'
      let (c, rest) := escapeChar (if isLong then rest.tail else rest)
      let (after, ended) := unescape fuel rest
      (c :: after, ended)
  | fuel + 1, c :: rest =>
    let (after, ended) := unescape fuel rest
    (c :: after, ended)

/-- What `echo` writes. -/
def echo (arguments : List Text) : Text :=
  let (continued, arguments) :=
    match arguments with
    | ['-', 'n'] :: rest => (true, rest)
    | _ => (false, arguments)
  let line := join [' '] arguments
  let (written, ended) := unescape line.length line
  if ended || continued then written else written ++ ['\n']

/-- A conversion in a format: its flags, its width, its precision, and the letter that names it. -/
structure Conversion where
  flags : Text := []
  width : Nat := 0
  precision : Option Nat := none
  letter : Char
  deriving DecidableEq, Repr

/-- The conversion after a percent sign, where stars take arguments, with what is left of the format and of the
arguments. -/
def Conversion.read? (t : Text) (arguments : List Text) : Option (Conversion × Text × List Text) :=
  let number (t : Text) (arguments : List Text) : Nat × Text × List Text :=
    match t with
    | '*' :: rest => ((toNat? (arguments.headD [])).getD 0, rest, arguments.tail)
    | t => ((toNat? (t.takeWhile Char.isDigit)).getD 0, t.dropWhile Char.isDigit, arguments)
  let isFlag (c : Char) : Bool := "#-+ 0".toList.elem c
  let (flags, t) := (t.takeWhile isFlag, t.dropWhile isFlag)
  let (width, t, arguments) := number t arguments
  let (precision, t, arguments) :=
    match t with
    | '.' :: rest =>
      let (n, t, arguments) := number rest arguments
      (some n, t, arguments)
    | t => (none, t, arguments)
  match t with
  | letter :: rest => some ({ flags, width, precision, letter }, rest, arguments)
  | [] => none

/-- A text in a field of at least the width of a conversion. -/
def Conversion.pad (conversion : Conversion) (t : Text) : Text :=
  let missing := conversion.width - t.length
  if conversion.flags.elem '-' then t ++ List.replicate missing ' ' else List.replicate missing ' ' ++ t

/-- A number with the digits of a conversion. -/
def Conversion.number (conversion : Conversion) (n : Int) : Text :=
  let unsigned := (if n < 0 then n + 18446744073709551616 else n).toNat
  let (sign, digits) : Text × Text :=
    match conversion.letter with
    | 'o' => (if conversion.flags.elem '#' then ['0'] else [], Nat.toDigits 8 unsigned)
    | 'x' => (if conversion.flags.elem '#' && n != 0 then "0x" else [], Nat.toDigits 16 unsigned)
    | 'X' => (if conversion.flags.elem '#' && n != 0 then "0X" else [], asciiCapitals (Nat.toDigits 16 unsigned))
    | 'u' => ([], Nat.toDigits 10 unsigned)
    | _ =>
      let positive : Text := (['+', ' '].find? conversion.flags.elem).toList
      (if n < 0 then ['-'] else positive, Nat.toDigits 10 n.natAbs)
  let digits := List.replicate ((conversion.precision.getD 1) - digits.length) '0' ++ digits
  let isZeroed := conversion.flags.elem '0' && !conversion.flags.elem '-' && conversion.precision.isNone
  let zeros := if isZeroed then conversion.width - (sign.length + digits.length) else 0
  conversion.pad (sign ++ List.replicate zeros '0' ++ digits)

/-- The number that an argument stands for; a quote stands before a character whose code is meant. -/
def argumentNumber? (argument : Text) : Option Int :=
  match argument with
  | [] => some 0
  | '\'' :: c :: _ => some c.toNat
  | '"' :: c :: _ => some c.toNat
  | argument => Arithmetic.ofValue? argument

/-- The output of a format so far. -/
structure Printed where
  output : Text := []
  arguments : List Text := []
  status : Nat := 0
  ended : Bool := false
  deriving Repr

/-- The output of a format, once over. -/
def printOnce : Nat → Text → Printed → Printed
  | 0, _, printed => printed
  | _, [], printed => printed
  | fuel + 1, c :: rest, printed =>
    let put (t : Text) : Printed := { printed with output := printed.output ++ t }
    if c == '\\' then
      let (c, rest) := escapeChar rest
      printOnce fuel rest (put [c])
    else if c != '%' then printOnce fuel rest (put [c])
    else if rest.head? == some '%' then printOnce fuel rest.tail (put ['%'])
    else
      match Conversion.read? rest printed.arguments with
      | none => { printed with status := 2, ended := true }
      | some (conversion, rest, arguments) =>
        let argument := arguments.headD []
        let printed := { printed with arguments := arguments.tail }
        let shorten (t : Text) : Text := (conversion.precision.map t.take).getD t
        let put (t : Text) : Printed := { printed with output := printed.output ++ t }
        if conversion.letter == 's' then printOnce fuel rest (put (conversion.pad (shorten argument)))
        else if conversion.letter == 'c' then printOnce fuel rest (put (conversion.pad (argument.take 1)))
        else if conversion.letter == 'b' then
          let (written, ended) := unescape argument.length argument
          let printed := put (conversion.pad (shorten written))
          if ended then { printed with ended := true } else printOnce fuel rest printed
        else if "diouxX".toList.elem conversion.letter then
          match argumentNumber? argument with
          | some n => printOnce fuel rest (put (conversion.number n))
          | none =>
            let n := (toNat? (argument.takeWhile Char.isDigit)).getD 0
            printOnce fuel rest { put (conversion.number n) with status := 1 }
        else { printed with status := 2, ended := true }

/-- The output of a format, which is used again as long as there are arguments that it takes. -/
def printAll (format : Text) : Nat → Printed → Printed
  | 0, printed => printed
  | fuel + 1, printed =>
    let after := printOnce format.length format printed
    if after.ended || after.arguments.isEmpty || after.arguments.length == printed.arguments.length then after
    else printAll format fuel after

/-- What `printf` writes, and its status. -/
def printf (arguments : List Text) : Text × Nat :=
  match if arguments.head? == some "--".toList then arguments.tail else arguments with
  | [] => ([], 2)
  | format :: arguments =>
    let printed := printAll format (arguments.length + 1) { arguments }
    (printed.output, printed.status)

end RoffDocBook.Shell
