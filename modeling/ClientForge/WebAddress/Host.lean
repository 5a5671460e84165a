import ClientForge.Text.Blank
import ClientForge.Text.Hex

/-!
# Hosts of web addresses

The host of an address may be a number in brackets: eight groups of hexadecimal digits,
where one run of zeros may be left out and the last two groups may be written as four
decimal numbers, or a form of a later version. A host outside the ASCII range may not
hold characters that stand for the marks between the parts of an address.
-/

namespace ClientForge.WebAddress

open ClientForge.Text

/-- A number below 256 without leading zeros. -/
def isOctet (cs : List Char) : Bool :=
  !cs.isEmpty && cs.length ≤ 3 && cs.all isAsciiDigit && (cs.length = 1 || cs.head? != some '0') &&
    ((numeral? 10 cs).any (· < 256))

/-- Four decimal numbers with dots between them. -/
def isDottedNumber (cs : List Char) : Bool :=
  let parts := splitAt '.' cs
  parts.length = 4 && parts.all isOctet

/-- One group of hexadecimal digits. -/
def isHexGroup (cs : List Char) : Bool :=
  !cs.isEmpty && cs.length ≤ 4 && cs.all fun c => (hexValue? c).isSome

/-- Groups next to a run of zeros that is left out. At the end of the number there may be
none, which the colon beyond the run shows. -/
def isSide (groups : List (List Char)) : Bool := groups == [[]] || groups.all isHexGroup

/-- How many groups a side stands for. -/
def groupCount (groups : List (List Char)) : Nat := if groups == [[]] then 0 else groups.length

/-- The groups between colons, four decimal numbers at the end as two groups; nothing if
those are broken. -/
def hexGroups? (cs : List Char) : Option (List (List Char)) :=
  let groups := splitAt ':' cs
  let last := groups.getLast?.getD []
  if !last.contains '.' then some groups
  else if isDottedNumber last then some (groups.dropLast ++ [['0'], ['0']])
  else none

/-- Whether some groups are a number: all eight of them, or fewer around one run of zeros
that is left out. -/
def areEightGroups (groups : List (List Char)) : Bool :=
  let inner := (groups.drop 1).dropLast
  let before := inner.takeWhile (!·.isEmpty)
  if before.length = inner.length then groups.length = 8 && groups.all isHexGroup
  else
    let left := groups.take (before.length + 1)
    let right := groups.drop (before.length + 2)
    isSide left && isSide right && groupCount left + groupCount right < 8

/-- A number of eight groups. It has two colons at least. -/
def isGroupedNumber (cs : List Char) : Bool :=
  3 ≤ (splitAt ':' cs).length && (hexGroups? cs).any areEightGroups

/-- A number of eight groups with the name of a zone after a percent sign, if it has one. -/
def isZonedNumber (cs : List Char) : Bool :=
  let number := cs.takeWhile (· != '%')
  match cs.drop number.length with
  | [] => isGroupedNumber number
  | _ :: zone => !zone.isEmpty && !zone.contains '%' && isGroupedNumber number

/-- A form of a later version: its number in hexadecimal digits, a dot, and a text. -/
def isLaterForm : List Char → Bool
  | 'v' :: rest =>
    let version := rest.takeWhile fun c => (hexValue? c).isSome
    match rest.drop version.length with
    | '.' :: _ :: _ => !version.isEmpty
    | _ => false
  | _ => false

/-- The text after the last of a character, or the whole text. -/
def afterLast (c : Char) (cs : List Char) : List Char := (cs.reverse.takeWhile (· != c)).reverse

/-- Whether the brackets of a host stand where they may: around the whole name behind the
name of a user, with at most a port after them. Brackets in the name of a user call for
a name that could stand in brackets. -/
def hasProperBrackets (host : List Char) : Bool :=
  host.contains '[' && host.contains ']' &&
    let place := afterLast '@' host
    let before := place.takeWhile (· != '[')
    match place.drop before.length with
    | [] => isLaterForm (place.takeWhile (· != ':'))
    | _ :: rest =>
      let name := rest.takeWhile (· != ']')
      let after := rest.drop (name.length + 1)
      before.isEmpty && (isLaterForm name || isZonedNumber name) &&
        (after.isEmpty || after.head? == some ':')

/-- The characters outside the ASCII range that stand for a text with one of the marks
that separate the parts of an address. -/
def disguisedMarks : List Nat :=
  [0x2047, 0x2048, 0x2049, 0x2100, 0x2101, 0x2105, 0x2106, 0x2a74, 0xfe13, 0xfe16, 0xfe55,
    0xfe56, 0xfe5f, 0xfe6b, 0xff03, 0xff0f, 0xff1a, 0xff1f, 0xff20]

/-- Whether a text can be a host: its brackets, if it has any, stand around a number, and
no character disguises a mark. -/
def isHost (host : List Char) : Bool :=
  ((!host.contains '[' && !host.contains ']') || hasProperBrackets host) &&
    !host.any fun c => disguisedMarks.contains c.toNat

end ClientForge.WebAddress
