import AverageLinkage.Text.Line
import AverageLinkage.Text.Unprinted

/-!
# Quoted text

A byte string is shown between double quotes.  Quotes, backslashes and common
control characters are written as a backslash and a letter, other characters
that are not shown as themselves by their code point, and bytes that are not
part of a well-formed character by their value.
-/

namespace AverageLinkage.Text

def lowerHex (value : Nat) : List Char :=
  Nat.toDigits 16 value

def upperHexByte (byte : UInt8) : List Char :=
  let digits := (Nat.toDigits 16 byte.toNat).map Char.toUpper
  List.replicate (2 - digits.length) '0' ++ digits

def quoteChar (char : Char) : List Char :=
  if char = '\x00' then ['\\', '0']
  else if char = '\t' then ['\\', 't']
  else if char = '\r' then ['\\', 'r']
  else if char = '\n' then ['\\', 'n']
  else if char = '"' then ['\\', '"']
  else if char = '\\' then ['\\', '\\']
  else if isUnprinted char then
    "\\u\x7b".toList ++ lowerHex char.toNat ++ ['\x7d']
  else [char]

/-- The character that a prefix of one to four bytes encodes, with the number
of its bytes. -/
def firstChar? (bytes : Bytes) : Option (Char × Nat) :=
  [1, 2, 3, 4].findSome? fun count =>
    match decode (bytes.take count) with
    | some [char] => some (char, count)
    | _ => none

/-- Quote the bytes after the first `skip` ones. -/
def quoteFrom : (skip : Nat) → Bytes → List Char
  | _, [] => []
  | skip + 1, _ :: rest => quoteFrom skip rest
  | 0, byte :: rest =>
      match firstChar? (byte :: rest) with
      | some (char, count) => quoteChar char ++ quoteFrom (count - 1) rest
      | none => '\\' :: 'x' :: upperHexByte byte ++ quoteFrom 0 rest

def quoteBytes (bytes : Bytes) : String :=
  String.ofList ('"' :: quoteFrom 0 bytes ++ ['"'])

def quote (text : String) : String :=
  String.ofList ('"' :: text.toList.flatMap quoteChar ++ ['"'])

end AverageLinkage.Text
